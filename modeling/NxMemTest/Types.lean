import Mathlib.Tactic.Common

/-! The shared enumerations and records of the headers under `include/nxmt`.
C integers keep their widths as bit vectors; a NULL-able pointer to a record is
an `Option`, a NULL-able pointer to an atomic is the Boolean `pointer != NULL`. -/

namespace NxMemTest

/-- `uint64_t` -/
abbrev Word := BitVec 64

def uint64Max : Word := BitVec.allOnes 64

def nxmtWordBytes : Nat := 8
def nxmtPageBytes : Nat := 4096
def nxmtMibBytes : Nat := 1024 * 1024

inductive NxmtMode where
  | quick
  | memoryLoad
  | extreme
  deriving DecidableEq, Repr

inductive NxmtPhase where
  | fixedA
  | fixed5
  | checker
  | address
  | random
  | walking
  | narrow
  | bitspread
  | stream
  deriving DecidableEq, Repr

inductive NxmtStatus where
  | pass
  | fail
  | aborted
  | unsupported
  deriving DecidableEq, Repr

/-- `base` is the numeric value of the pointer. -/
structure NxmtArena where
  base : Word
  size : Word
  words : Word
  deriving DecidableEq, Repr

structure NxmtRunConfig where
  mode : NxmtMode
  seed : Word
  pass : Word
  workerId : BitVec 32
  workerCount : BitVec 32
  injectMismatch : Bool
  stopRequested : Bool
  progressBytes : Bool
  deriving DecidableEq, Repr

structure NxmtRunStats where
  bytesWritten : Word
  bytesVerified : Word
  pressureChecksum : Word
  currentPhase : NxmtPhase
  deriving DecidableEq, Repr

end NxMemTest
