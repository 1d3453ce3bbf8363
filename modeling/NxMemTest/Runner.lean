import NxMemTest.Arena
import NxMemTest.Chunk
import NxMemTest.Interaction.Program

/-! `nxmt_runner_run_pass` and the two halves of a phase. A pass acts on what it
shares with others only through `Call`: polling the stop flag, writing or
verifying a chunk, touching single words and counting progress. -/

namespace NxMemTest
open Interaction

inductive Call where
  | stopRequested
  | writeChunk (p chunkWords startWord : Nat) (phase : NxmtPhase) (seed pass : Word)
  | verifyChunk (p chunkWords startWord : Nat) (phase : NxmtPhase) (config : NxmtRunConfig)
  | load (p : Nat)
  | store (p : Nat) (value : Word)
  | progressAdd (delta : Word)

/-- What each call returns; a verify returns the recordings it makes. -/
@[reducible] def Call.Answer : Call → Type
  | .stopRequested => Bool
  | .writeChunk .. => Unit
  | .verifyChunk .. => List RecordCall
  | .load _ => Word
  | .store _ _ => Unit
  | .progressAdd _ => Unit

abbrev Runner := Program Call Call.Answer

namespace Runner

def pollStop : Runner Bool := Program.call Call.stopRequested

def writeChunk (p chunkWords startWord : Nat) (phase : NxmtPhase) (seed pass : Word) : Runner Unit :=
  Program.call (Call.writeChunk p chunkWords startWord phase seed pass)

def verifyChunk (p chunkWords startWord : Nat) (phase : NxmtPhase) (config : NxmtRunConfig) :
    Runner (List RecordCall) :=
  Program.call (Call.verifyChunk p chunkWords startWord phase config)

def load (p : Nat) : Runner Word := Program.call (Call.load p)

def store (p : Nat) (value : Word) : Runner Unit := Program.call (Call.store p value)

def progressAdd (delta : Word) : Runner Unit := Program.call (Call.progressAdd delta)

end Runner

def quickPhases : List NxmtPhase := [.fixedA, .address, .random]

def memoryLoadPhases : List NxmtPhase :=
  [.fixedA, .fixed5, .checker, .bitspread, .stream, .address, .random, .walking]

/-- The phase table of a mode; `nxmt_phase_for_mode(mode, p)` is its entry `p`. -/
def nxmtPhasesForMode (mode : NxmtMode) : List NxmtPhase :=
  if mode = .quick then quickPhases else memoryLoadPhases

theorem nxmtPhasesForMode_nodup (mode : NxmtMode) : (nxmtPhasesForMode mode).Nodup := by
  cases mode <;> decide

def nxmtRunnerPhaseCount (mode : NxmtMode) : Nat := (nxmtPhasesForMode mode).length

def nxmtExtremeCpuPressure (state value : Word) : Word :=
  let value := Loop.run 1 64 0
    (fun i value =>
      let value := nxmtMix64 (value + BitVec.ofNat 64 i)
      let value := value ^^^ (value <<< 13)
      let value := value ^^^ (value >>> 7)
      value ^^^ (value <<< 17)) value
  state ^^^ value

def nxmtRunnerIsAligned (arena : NxmtArena) : Bool := arena.base % 8 = 0

def nxmtRunnerStopRequested (config : NxmtRunConfig) : Runner Bool :=
  if config.stopRequested then Runner.pollStop else pure false

def nxmtRunnerAbortStatus (report : NxmtReport) (initialErrors : Word) : NxmtStatus :=
  if report.errorCount ≠ initialErrors then .fail else .aborted

def nxmtProgressAdd (config : NxmtRunConfig) (delta : Word) : Runner Unit :=
  if config.progressBytes ∧ delta ≠ 0 then Runner.progressAdd delta else pure ()

/-- `(1ull << 20) / NXMT_WORD_BYTES` -/
def checkChunk : Nat := 2 ^ 20 / nxmtWordBytes

def chunkAt (count processed : Nat) : Nat :=
  let chunk := checkChunk
  if processed + chunk > count then count - processed else chunk

theorem checkChunk_value : checkChunk = 131072 := rfl

theorem chunkAt_pos {count processed : Nat} (h : processed < count) :
    0 < chunkAt count processed := by
  have value := checkChunk_value
  unfold chunkAt
  dsimp only
  split <;> omega

theorem chunkAt_le {count processed : Nat} (h : processed ≤ count) :
    processed + chunkAt count processed ≤ count := by
  have value := checkChunk_value
  unfold chunkAt
  dsimp only
  split <;> omega

/-- The `EXTREME` fold over a chunk; the other modes skip it. -/
def foldPressure (config : NxmtRunConfig) (p chunk : Nat) (pressure : Word) : Runner Word :=
  if config.mode = .extreme then
    (List.range chunk).foldlM (fun pressure k => do
      let value ← Runner.load (p + k)
      pure (nxmtExtremeCpuPressure pressure value)) pressure
  else pure pressure

/-- The loop of `nxmt_write_phase`, from `processed` on. -/
def writeChunks (start count : Nat) (phase : NxmtPhase) (config : NxmtRunConfig)
    (processed : Nat) (pressure : Word) : Runner (Bool × Word) :=
  if processed < count then do
    let stop ← nxmtRunnerStopRequested config
    if stop then pure (false, pressure)
    else do
      let chunk := chunkAt count processed
      Runner.writeChunk (start + processed) chunk (start + processed) phase config.seed config.pass
      let pressure ← foldPressure config (start + processed) chunk pressure
      nxmtProgressAdd config (BitVec.ofNat 64 chunk * wordBytes)
      writeChunks start count phase config (processed + chunk) pressure
  else pure (true, pressure)
termination_by count - processed
decreasing_by
  have pos := chunkAt_pos ‹processed < count›
  omega

def nxmtWritePhase (start count : Nat) (phase : NxmtPhase) (config : NxmtRunConfig)
    (pressure : Word) : Runner (Bool × Word) := do
  let (done, pressure) ← writeChunks start count phase config 0 pressure
  if !done then pure (false, pressure)
  else if config.injectMismatch ∧ count > 0 then do
    let value ← Runner.load start
    Runner.store start (value ^^^ 0x100)
    pure (true, pressure)
  else pure (true, pressure)

def verifyChunks (start count : Nat) (phase : NxmtPhase) (config : NxmtRunConfig)
    (processed : Nat) (report : NxmtReport) (pressure : Word) :
    Runner (Bool × NxmtReport × Word) :=
  if processed < count then do
    let stop ← nxmtRunnerStopRequested config
    if stop then pure (false, report, pressure)
    else do
      let chunk := chunkAt count processed
      let calls ← Runner.verifyChunk (start + processed) chunk (start + processed) phase config
      let pressure ← foldPressure config (start + processed) chunk pressure
      nxmtProgressAdd config (BitVec.ofNat 64 chunk * wordBytes)
      verifyChunks start count phase config (processed + chunk) (report.recordAll calls) pressure
  else pure (true, report, pressure)
termination_by count - processed
decreasing_by
  have pos := chunkAt_pos ‹processed < count›
  omega

def nxmtVerifyPhase (start count : Nat) (phase : NxmtPhase) (config : NxmtRunConfig)
    (report : NxmtReport) (pressure : Word) : Runner (Bool × NxmtReport × Word) :=
  verifyChunks start count phase config 0 report pressure

/-- What `nxmt_runner_run_pass` leaves behind its pointers; a NULL pointer has
nothing behind it. -/
structure PassResult where
  status : NxmtStatus
  report : Option NxmtReport
  stats : Option NxmtRunStats
  deriving DecidableEq

def finishPass (status : NxmtStatus) (report : NxmtReport) (stats : NxmtRunStats)
    (pressure : Word) : PassResult :=
  ⟨status, some report, some { stats with pressureChecksum := pressure }⟩

def runPhases (start count : Nat) (config : NxmtRunConfig) (initialErrors : Word) :
    List NxmtPhase → NxmtReport → NxmtRunStats → Word → Runner PassResult
  | [], report, stats, pressure =>
    pure (finishPass (if report.errorCount ≠ initialErrors then .fail else .pass)
      report stats pressure)
  | phase :: phases, report, stats, pressure => do
    let stop ← nxmtRunnerStopRequested config
    if stop then pure (finishPass (nxmtRunnerAbortStatus report initialErrors) report stats pressure)
    else do
      let stats := { stats with currentPhase := phase }
      let (written, pressure) ← nxmtWritePhase start count phase config pressure
      if !written then
        pure (finishPass (nxmtRunnerAbortStatus report initialErrors) report stats pressure)
      else do
        let stats :=
          { stats with bytesWritten := stats.bytesWritten + BitVec.ofNat 64 count * wordBytes }
        let (verified, report, pressure) ←
          nxmtVerifyPhase start count phase config report pressure
        if !verified then
          pure (finishPass (nxmtRunnerAbortStatus report initialErrors) report stats pressure)
        else
          let stats :=
            { stats with bytesVerified := stats.bytesVerified + BitVec.ofNat 64 count * wordBytes }
          runPhases start count config initialErrors phases report stats pressure

def nxmtRunnerRunPass (arena : Option NxmtArena) (config : Option NxmtRunConfig)
    (report : Option NxmtReport) (stats : Option NxmtRunStats) : Runner PassResult :=
  match stats with
  | none => pure ⟨.unsupported, report, none⟩
  | some _ =>
    let stats : NxmtRunStats := ⟨0, 0, 0, .fixedA⟩
    match arena, config, report with
    | some arena, some config, some report =>
      if arena.base = 0 ∨ arena.words = 0 ∨ config.workerCount = 0 ∨
          config.workerId ≥ config.workerCount then
        pure ⟨.unsupported, some report, some stats⟩
      else if !nxmtRunnerIsAligned arena then
        pure ⟨.unsupported, some report, some stats⟩
      else
        let initialErrors := report.errorCount
        let pressure := config.seed ^^^ config.workerId.setWidth 64
        let start := nxmtSplitBlockStart arena.words config.workerCount config.workerId
        let count := nxmtSplitBlockSize arena.words config.workerCount config.workerId
        runPhases start.toNat count.toNat config initialErrors (nxmtPhasesForMode config.mode)
          report stats pressure
    | _, _, _ => pure ⟨.unsupported, report, some stats⟩

end NxMemTest
