import NxMemTest.Neon
import NxMemTest.Interaction.Program

/-! `source/nx/gpu_pump.c`: where the pump lays out its storage, the pattern it
fills its source with, and how `nxmt_gpu_pump_start` deals with the pump thread. -/

namespace NxMemTest
open Interaction

def pumpCmdBytes : Word := 64 * 1024
def pumpShaderBytes : Word := 16 * 1024
def pumpResultBytes : Word := 4 * 1024
def pumpPreambleBytes : Word := pumpCmdBytes + pumpShaderBytes + pumpResultBytes

/-- `(bytes + NXMT_PAGE_BYTES - 1) & ~(NXMT_PAGE_BYTES - 1)` -/
def pumpBufferAligned (bytes : Word) : Word :=
  (bytes + BitVec.ofNat 64 nxmtPageBytes - 1) &&& ~~~(BitVec.ofNat 64 nxmtPageBytes - 1)

/-- `[base, base + size)` -/
structure Region where
  base : Word
  size : Word
  deriving DecidableEq, Repr

def pumpRegions (storageBase bufferAligned : Word) : List Region :=
  let shaderStorage := storageBase + pumpCmdBytes
  let resultStorage := shaderStorage + pumpShaderBytes
  let srcStorage := storageBase + pumpPreambleBytes
  let dstStorage := srcStorage + bufferAligned
  [⟨storageBase, pumpCmdBytes⟩, ⟨shaderStorage, pumpShaderBytes⟩,
    ⟨resultStorage, pumpResultBytes⟩, ⟨srcStorage, bufferAligned⟩, ⟨dstStorage, bufferAligned⟩]

/-- What `pump_thread_entry` works on, from `g_pump_storage_base` and
`g_pump_buffer_bytes`. -/
def pumpThreadRegions (storageBase bufferBytes : Word) : List Region :=
  pumpRegions storageBase (pumpBufferAligned bufferBytes)

/-! ### The source pattern -/

section
variable {σ : Type} (d : Device σ)

/-- `src` is the number of words that `src_ptr` lies past `arena->base`. -/
def pumpFillSrcPattern (src : Nat) (bytes seed : Word) (m : σ) : σ :=
  let words := (bytes / 8).toNat
  Loop.run 1 words 0 (fun k m => d.store m (src + k) ((BitVec.ofNat 64 k * 8) ^^^ seed)) m

def pumpFillSrcPatternNeon (src : Nat) (bytes seed : Word) (m : σ) : σ :=
  let words := (bytes / 8).toNat
  let off01 := vsetqLane1 8 (vdupq 0)
  let off23 := vsetqLane1 24 (vdupq 16)
  let m := fillVectors4 d (vdupq seed) (vdupq 32) src words off01 off23 m
  Loop.run 1 words (Loop.exit 4 words 0)
    (fun k m => d.store m (src + k) ((BitVec.ofNat 64 k * 8) ^^^ seed)) m

end

/-! ### Starting the pump thread -/

/-- Creating and starting the thread say whether they succeeded. The thread runs
on the globals that `threadStart` names. -/
inductive PumpCall where
  | threadCreate
  | threadStart (storageBase bufferBytes : Word)
  | threadClose
  | threadWaitForExit
  | initDone
  | initFailed
  deriving DecidableEq

@[reducible] def PumpCall.Answer : PumpCall → Type
  | .threadCreate | .threadStart .. | .initDone | .initFailed => Bool
  | .threadClose | .threadWaitForExit => Unit

abbrev Pump := Program PumpCall PumpCall.Answer

/-- `for (int i = 0; i < left; ++i)`: poll `g_pump_init_done`, sleeping in between. -/
def pollInitDone : Nat → Pump Unit
  | 0 => pure ()
  | left + 1 => do
    let initDone ← Program.call PumpCall.initDone
    if initDone then pure () else pollInitDone left

open Program in
theorem pollInitDone_uses {A : PumpCall → Prop} (h : A .initDone) (left : Nat) :
    (pollInitDone left).Uses A := by
  induction left with
  | zero => exact uses_pure _
  | succ left ih =>
    refine uses_bind (uses_call.2 h) fun initDone => ?_
    split
    · exact uses_pure _
    · exact ih

def nxmtGpuPumpStart (storageBase storageSize bufferSize : Word) (stopRequested : Bool) :
    Pump Bool :=
  if storageBase = 0 ∨ stopRequested = false ∨ bufferSize = 0 then pure false
  else
    let bufferAligned := pumpBufferAligned bufferSize
    let required := pumpPreambleBytes + 2 * bufferAligned
    if storageSize < required then pure false
    else do
      let created ← Program.call PumpCall.threadCreate
      if !created then pure false
      else do
        let started ← Program.call (PumpCall.threadStart storageBase bufferAligned)
        if !started then do
          Program.call PumpCall.threadClose
          pure false
        else do
          pollInitDone 50
          let failed ← Program.call PumpCall.initFailed
          if failed then do
            Program.call PumpCall.threadWaitForExit
            Program.call PumpCall.threadClose
            pure false
          else pure true

/-- After the events `t` a pump thread on these globals may be running: it was
started and nobody has waited for its exit. -/
def PumpMayRun (storageBase bufferBytes : Word) (t : List (Event PumpCall.Answer)) : Prop :=
  ⟨.threadStart storageBase bufferBytes, true⟩ ∈ t ∧ ∀ e ∈ t, e.1 ≠ .threadWaitForExit

end NxMemTest
