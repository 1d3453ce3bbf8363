import NxMemTest.Workers
import NxMemTest.PassTrace

/-! The run loop of `source/nx/main.c`, from the GPU carve-out to the final
status. The main thread acts on its surroundings only through `MainCall`: the
clock, the controller, thread creation and start, and the workers it joins. What
it draws on the way is left out. Loops that wait for the surroundings take fuel
and give `none` when it runs out. -/

namespace NxMemTest
open Interaction

/-- A worker thread from its start to its exit, on whatever memory it found. Only
the main thread raises the stop flag, so without it no poll is answered true. -/
structure WorkerRun (ctx : NxmtWorkerContext) (stopRequested : Bool) where
  events : List (Event Call.Answer)
  result : NxmtWorkerContext
  path : Program.Path (nxmtWorkerEntry ctx) events result
  quiet : stopRequested = false → Quiet events

/-- `runWorkers` is answered when the first `started` workers have exited;
`stopRequested` says whether the stop flag was raised while they ran. -/
inductive MainCall where
  | gpuPumpStart (gpuStorage region : Word)
  | ticksMs
  | threadCreate (worker : Nat)
  | threadStart (worker : Nat)
  | finishedWorkers
  | appletMainLoop
  | readPlus
  | runWorkers (started : Nat) (contexts : Nat → NxmtWorkerContext) (stopRequested : Bool)
  | gpuPumpErrBatches

/-- What each call returns; creating and starting a thread say whether `rc == 0`. -/
@[reducible] def MainCall.Answer : MainCall → Type
  | .gpuPumpStart .. => Bool
  | .ticksMs => Word
  | .threadCreate _ => Bool
  | .threadStart _ => Bool
  | .finishedWorkers => BitVec 32
  | .appletMainLoop => Bool
  | .readPlus => Bool
  | .runWorkers started contexts stopRequested =>
    (worker : Fin started) → WorkerRun (contexts worker) stopRequested
  | .gpuPumpErrBatches => Word

abbrev Main := Program MainCall MainCall.Answer

namespace Main

def gpuPumpStart (gpuStorage region : Word) : Main Bool :=
  Program.call (MainCall.gpuPumpStart gpuStorage region)

def ticksMs : Main Word := Program.call MainCall.ticksMs

def threadCreate (worker : Nat) : Main Bool := Program.call (MainCall.threadCreate worker)

def threadStart (worker : Nat) : Main Bool := Program.call (MainCall.threadStart worker)

def finishedWorkers : Main (BitVec 32) := Program.call MainCall.finishedWorkers

def appletMainLoop : Main Bool := Program.call MainCall.appletMainLoop

def readPlus : Main Bool := Program.call MainCall.readPlus

def runWorkers (started : Nat) (contexts : Nat → NxmtWorkerContext) (stopRequested : Bool) :
    Main ((worker : Fin started) → WorkerRun (contexts worker) stopRequested) :=
  Program.call (MainCall.runWorkers started contexts stopRequested)

def gpuPumpErrBatches : Main Word := Program.call MainCall.gpuPumpErrBatches

end Main

structure MainConfig where
  mode : NxmtMode
  seed : Word
  durationMs : Word
  cpuArena : NxmtArena
  workers : BitVec 32

/-- The locals of `main` that the loop changes, and the stop flag. -/
structure RunState where
  totals : Totals
  passesCompleted : Word
  passIndex : Word
  stopRequested : Bool
  userAborted : Bool
  threadFallback : Bool

/-- The tail of a large arena goes to the GPU pump, with the core of one worker. -/
def gpuCarveOut (mode : NxmtMode) (arena : NxmtArena) (workers : BitVec 32) :
    Main (NxmtArena × BitVec 32) :=
  if (mode = .memoryLoad ∨ mode = .extreme) ∧
      arena.size ≥ 1024 * BitVec.ofNat 64 nxmtMibBytes ∧ workers ≥ 2 then do
    let region := 256 * BitVec.ofNat 64 nxmtMibBytes
    let size := arena.size - region
    let cpuArena := { arena with size := size, words := size / BitVec.ofNat 64 nxmtWordBytes }
    let active ← Main.gpuPumpStart (arena.base + size) region
    pure (if active then (cpuArena, workers - 1) else (arena, workers))
  else pure (arena, workers)

/-- `duration_ms > 0 && nxmt_platform_ticks_ms() - test_started >= duration_ms` -/
def timerExpired (durationMs testStarted : Word) : Main Bool :=
  if durationMs > 0 then do
    let now ← Main.ticksMs
    pure (decide (now - testStarted ≥ durationMs))
  else pure false

/-- Call for `worker` and the `left - 1` after it, up to the first that fails:
whether none failed, and for how many workers the call has succeeded. -/
def callEach (call : Nat → Main Bool) (worker : Nat) : Nat → Main (Bool × Nat)
  | 0 => pure (true, worker)
  | left + 1 => do
    let ok ← call worker
    if ok then callEach call (worker + 1) left else pure (false, worker)

inductive WaitEnd where
  | finished
  | userAbort
  | timer
  deriving DecidableEq

def waitWorkers (durationMs testStarted : Word) (started : Nat) : Nat → Main (Option WaitEnd)
  | 0 => pure none
  | fuel + 1 => do
    let finished ← Main.finishedWorkers
    if finished.toNat < started then do
      let running ← Main.appletMainLoop
      if !running then pure (some .userAbort)
      else do
        let plus ← Main.readPlus
        if plus then pure (some .userAbort)
        else do
          let expired ← timerExpired durationMs testStarted
          if expired then pure (some .timer)
          else waitWorkers durationMs testStarted started fuel
    else pure (some .finished)

def workerContext (c : MainConfig) (workers : BitVec 32) (pass : Word) (progressBytes : Bool)
    (worker : Nat) : NxmtWorkerContext :=
  let ctx := initWorkerContext c.cpuArena c.mode c.seed (BitVec.ofNat 32 worker) workers true
  { ctx with config := { ctx.config with pass := pass, progressBytes := progressBytes } }

def runAndMerge (started : Nat) (contexts : Nat → NxmtWorkerContext) (st : RunState) :
    Main RunState := do
  let runs ← Main.runWorkers started contexts st.stopRequested
  pure { st with
    totals := (List.finRange started).foldl
      (fun totals worker => mergeWorkerContext (runs worker).result totals) st.totals
    passesCompleted := st.passesCompleted + 1 }

/-- One turn of `for (;;)`: whether it goes on, and the state. -/
def mainPass (c : MainConfig) (testStarted : Word) (fuel : Nat) (st : RunState) :
    Main (Option (Bool × RunState)) :=
  if st.stopRequested then pure (some (false, st))
  else do
    let expired ← timerExpired c.durationMs testStarted
    if expired then pure (some (false, st))
    else do
      let (created, _) ← callEach Main.threadCreate 0 c.workers.toNat
      if !created then pure (some (false, { st with threadFallback := true }))
      else do
        let (startedAll, started) ← callEach Main.threadStart 0 c.workers.toNat
        if !startedAll && started = 0 then
          pure (some (false, { st with threadFallback := true }))
        else do
          let ended ← waitWorkers c.durationMs testStarted started fuel
          match ended with
          | none => pure none
          | some ended =>
            let st := { st with
              stopRequested := ended ≠ .finished
              userAborted := st.userAborted || ended = .userAbort }
            let st ← runAndMerge started (workerContext c c.workers st.passIndex true) st
            if st.totals.status = .fail ∨ st.stopRequested ∨ c.durationMs = 0 then
              pure (some (false, st))
            else pure (some (true, { st with passIndex := st.passIndex + 1 }))

def mainLoop (c : MainConfig) (testStarted : Word) : Nat → RunState → Main (Option RunState)
  | 0, _ => pure none
  | fuel + 1, st => do
    let pass ← mainPass c testStarted fuel st
    match pass with
    | none => pure none
    | some (true, st) => mainLoop c testStarted fuel st
    | some (false, st) => pure (some st)

/-- The single-worker pass that stands in when no thread could be had; it runs on
the main thread with the stop flag down. -/
def runFallback (c : MainConfig) (st : RunState) : Main RunState :=
  if st.threadFallback then
    runAndMerge 1 (workerContext c 1 st.passIndex false) { st with stopRequested := false }
  else pure st

/-- GPU escalation, then the promotion of a run that ended on the timer. -/
def finalStatus (userAborted : Bool) (gpuErrBatches : Word) (report : NxmtReport)
    (status : NxmtStatus) : NxmtStatus :=
  let status := if gpuErrBatches > 0 then if status ≠ .fail then .fail else status else status
  if !userAborted ∧ status = .aborted ∧ report.errorCount = 0 then .pass else status

structure MainResult where
  status : NxmtStatus
  state : RunState
  config : MainConfig
  testStarted : Word
  gpuErrBatches : Word

/-- `report` is the uninitialized local. -/
def mainRun (mode : NxmtMode) (seed durationMs : Word) (arena : NxmtArena) (workers : BitVec 32)
    (report : NxmtReport) (fuel : Nat) : Main (Option MainResult) := do
  let (cpuArena, workers) ← gpuCarveOut mode arena workers
  let c : MainConfig := ⟨mode, seed, durationMs, cpuArena, workers⟩
  let testStarted ← Main.ticksMs
  let ended ← mainLoop c testStarted fuel ⟨initTotals report, 0, 0, false, false, false⟩
  match ended with
  | none => pure none
  | some st =>
    let st ← runFallback c st
    let gpuErrBatches ← Main.gpuPumpErrBatches
    pure (some ⟨finalStatus st.userAborted gpuErrBatches st.totals.report st.totals.status, st, c,
      testStarted, gpuErrBatches⟩)

end NxMemTest
