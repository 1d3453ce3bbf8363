import NxMemTest.MainLoop
import Mathlib.Data.List.GetD

/-! The same stretch of `main` down to its threads: the stop flag and the count of
finished workers that it shares with them, the contexts they run on, and every call
that makes, starts, joins or closes one. `worker_cpu_map` gives each its core. -/

namespace NxMemTest
open Interaction

/-- The contexts are `g_worker_contexts`, a `runner` call is one of the pass that the
main thread runs itself. Calls that make or start a thread say whether `rc == 0`. -/
inductive ThreadCall where
  | gpuPumpStart (gpuStorage region : Word) (affinityCore : Int)
  | cpuFillerStart (coreId : Int)
  | cpuFillerStop
  | gpuPumpStop
  | gpuPumpErrBatches
  | ticksMs
  | appletMainLoop
  | readPlus
  | storeStop (value : Bool)
  | loadStop
  | initFinished
  | loadFinished
  | initContext (worker : Nat) (ctx : NxmtWorkerContext)
  | loadContext (worker : Nat)
  | threadCreate (worker : Nat) (cpuId : Int)
  | threadStart (worker : Nat)
  | threadWaitForExit (worker : Nat)
  | threadClose (worker : Nat)
  | runner (c : Call)

@[reducible] def ThreadCall.Answer : ThreadCall → Type
  | .gpuPumpStart .. | .cpuFillerStart _ | .appletMainLoop | .readPlus | .loadStop
  | .threadCreate .. | .threadStart _ => Bool
  | .gpuPumpErrBatches | .ticksMs => Word
  | .loadFinished => BitVec 32
  | .loadContext _ => NxmtWorkerContext
  | .runner c => c.Answer
  | .cpuFillerStop | .gpuPumpStop | .storeStop _ | .initFinished | .initContext ..
  | .threadWaitForExit _ | .threadClose _ => Unit

abbrev Threaded := Program ThreadCall ThreadCall.Answer

/-! ### Cores -/

/-- `NXMT_MAX_WORKERS` -/
def nxmtMaxWorkers : Nat := 4

def preferredOrder : List Nat := [2, 0, 1, 3]

/-- The `out_cpu_map` entries that are filled in; their number is the result. -/
def collectWorkerCpuMap (mask : Word) (maxWorkers : Nat) : List Int :=
  preferredOrder.foldl
    (fun outCpuMap core =>
      if outCpuMap.length < maxWorkers ∧ mask &&& (1 <<< core) ≠ 0 then outCpuMap ++ [(core : Int)]
      else outCpuMap) []

theorem collectWorkerCpuMap_eq (mask : Word) : collectWorkerCpuMap mask nxmtMaxWorkers =
    (preferredOrder.filter fun core => mask &&& (1 <<< core) ≠ 0).map Nat.cast := by
  have collect : ∀ (cores : List Nat) (outCpuMap : List Int),
      outCpuMap.length + cores.length ≤ nxmtMaxWorkers →
      cores.foldl (fun outCpuMap core =>
        if outCpuMap.length < nxmtMaxWorkers ∧ mask &&& (1 <<< core) ≠ 0
        then outCpuMap ++ [(core : Int)] else outCpuMap) outCpuMap =
      outCpuMap ++ (cores.filter fun core => mask &&& (1 <<< core) ≠ 0).map Nat.cast := by
    intro cores
    induction cores with
    | nil => simp
    | cons core cores ih =>
      intro outCpuMap room
      rw [List.length_cons] at room
      have more : outCpuMap.length < nxmtMaxWorkers := by omega
      rw [List.foldl_cons]
      by_cases there : mask &&& (1 <<< core) ≠ 0
      · rw [if_pos ⟨more, there⟩, ih _ (by rw [List.length_append, List.length_singleton]; omega),
          List.filter_cons_of_pos (by simpa using there)]
        simp
      · rw [if_neg fun h => there h.2, ih _ (by omega),
          List.filter_cons_of_neg (by simpa using there)]
  exact collect preferredOrder [] (by decide)

/-- `worker_cpu_map`; without any core it holds libnx's default one. -/
def workerCpuMap (mask : Word) : List Int :=
  let cpuMap := collectWorkerCpuMap mask nxmtMaxWorkers
  if cpuMap.length = 0 then [-2] else cpuMap

theorem workerCpuMap_nodup (mask : Word) : (workerCpuMap mask).Nodup := by
  simp only [workerCpuMap]
  split
  · exact List.nodup_singleton _
  · rw [collectWorkerCpuMap_eq]
    exact (List.Nodup.filter _ (by decide)).map Nat.cast_injective

theorem workerCpuMap_length (mask : Word) :
    0 < (workerCpuMap mask).length ∧ (workerCpuMap mask).length ≤ nxmtMaxWorkers := by
  simp only [workerCpuMap]
  split
  · decide
  · rename_i some
    refine ⟨Nat.pos_of_ne_zero some, ?_⟩
    rw [collectWorkerCpuMap_eq, List.length_map]
    exact List.length_filter_le _ _

def cpuOf (cpuMap : List Int) (worker : Nat) : Int := cpuMap.getD worker 0

theorem cpuOf_ne {mask : Word} {i j : Nat} (hi : i < (workerCpuMap mask).length)
    (hj : j < (workerCpuMap mask).length) (ne : i ≠ j) :
    cpuOf (workerCpuMap mask) i ≠ cpuOf (workerCpuMap mask) j := by
  rw [cpuOf, cpuOf, List.getD_eq_getElem _ _ hi, List.getD_eq_getElem _ _ hj]
  exact fun same => ne ((List.Nodup.getElem_inj_iff (workerCpuMap_nodup mask)).1 same)

namespace Threaded

def ofRunner {α : Type} : Runner α → Threaded α
  | .done a => .done a
  | .ask c next => .ask (.runner c) fun r => ofRunner (next r)

structure Locals where
  totals : Totals
  passesCompleted : Word
  passIndex : Word
  userAborted : Bool
  threadFallback : Bool

/-- What the GPU pump leaves to the workers, and what has been started beside them. -/
structure Carved where
  cpuArena : NxmtArena
  workers : BitVec 32
  gpuPumpActive : Bool
  cpuFillerActive : Bool

def carveOut (mode : NxmtMode) (arena : NxmtArena) (cpuMap : List Int) (workers : BitVec 32) :
    Threaded Carved :=
  if (mode = .memoryLoad ∨ mode = .extreme) ∧
      arena.size ≥ 1024 * BitVec.ofNat 64 nxmtMibBytes ∧ workers ≥ 2 then do
    let region := 256 * BitVec.ofNat 64 nxmtMibBytes
    let size := arena.size - region
    let cpuArena := { arena with size := size, words := size / BitVec.ofNat 64 nxmtWordBytes }
    Program.call (ThreadCall.storeStop false)
    let pumpCore := cpuOf cpuMap (workers - 1).toNat
    let active ← Program.call (ThreadCall.gpuPumpStart (arena.base + size) region pumpCore)
    if active then do
      let workers := workers - 1
      let filler ← Program.call (ThreadCall.cpuFillerStart (cpuOf cpuMap workers.toNat))
      pure ⟨cpuArena, workers, true, filler⟩
    else pure ⟨arena, workers, false, false⟩
  else pure ⟨arena, workers, false, false⟩

def timerExpired (durationMs testStarted : Word) : Threaded Bool :=
  if durationMs > 0 then do
    let now ← Program.call ThreadCall.ticksMs
    pure (decide (now - testStarted ≥ durationMs))
  else pure false

/-- Call for `worker` and the `left - 1` after it, up to the first that fails:
whether none failed, and for how many workers the call has succeeded. -/
def callEach (call : Nat → Threaded Bool) (worker : Nat) : Nat → Threaded (Bool × Nat)
  | 0 => pure (true, worker)
  | left + 1 => do
    let ok ← call worker
    if ok then callEach call (worker + 1) left else pure (false, worker)

/-- `for (worker = worker; worker < worker + left; ++worker)` over calls that cannot fail. -/
def forEach (call : Nat → Threaded Unit) (worker : Nat) : Nat → Threaded Unit
  | 0 => pure ()
  | left + 1 => do
    call worker
    forEach call (worker + 1) left

def create (c : MainConfig) (cpuMap : List Int) (passIndex : Word) (worker : Nat) :
    Threaded Bool := do
  Program.call (ThreadCall.initContext worker (workerContext c c.workers passIndex true worker))
  Program.call (ThreadCall.threadCreate worker (cpuOf cpuMap worker))

def start (worker : Nat) : Threaded Bool := Program.call (ThreadCall.threadStart worker)

def join (worker : Nat) : Threaded Unit := Program.call (ThreadCall.threadWaitForExit worker)

def close (worker : Nat) : Threaded Unit := Program.call (ThreadCall.threadClose worker)

def waitWorkers (durationMs testStarted : Word) (started : Nat) : Nat → Threaded (Option WaitEnd)
  | 0 => pure none
  | fuel + 1 => do
    let finished ← Program.call ThreadCall.loadFinished
    if finished.toNat < started then do
      let running ← Program.call ThreadCall.appletMainLoop
      if !running then do
        Program.call (ThreadCall.storeStop true)
        pure (some .userAbort)
      else do
        let plus ← Program.call ThreadCall.readPlus
        if plus then do
          Program.call (ThreadCall.storeStop true)
          pure (some .userAbort)
        else do
          let expired ← timerExpired durationMs testStarted
          if expired then do
            Program.call (ThreadCall.storeStop true)
            pure (some .timer)
          else waitWorkers durationMs testStarted started fuel
    else pure (some .finished)

def mergeEach (worker : Nat) : Nat → Totals → Threaded Totals
  | 0, totals => pure totals
  | left + 1, totals => do
    let ctx ← Program.call (ThreadCall.loadContext worker)
    mergeEach (worker + 1) left (mergeWorkerContext ctx totals)

/-- Join the started threads, close all of them and merge what the started ones found. -/
def finish (started created : Nat) (l : Locals) : Threaded Locals := do
  forEach join 0 started
  forEach close 0 created
  let totals ← mergeEach 0 started l.totals
  pure { l with totals := totals, passesCompleted := l.passesCompleted + 1 }

/-- One turn of `for (;;)`: whether it goes on, and the locals. -/
def pass (c : MainConfig) (cpuMap : List Int) (testStarted : Word) (fuel : Nat) (l : Locals) :
    Threaded (Option (Bool × Locals)) := do
  let stop ← Program.call ThreadCall.loadStop
  if stop then pure (some (false, l))
  else do
    let expired ← timerExpired c.durationMs testStarted
    if expired then pure (some (false, l))
    else do
      Program.call ThreadCall.initFinished
      let (created, createdThreads) ← callEach (create c cpuMap l.passIndex) 0 c.workers.toNat
      if !created then do
        forEach close 0 createdThreads
        pure (some (false, { l with threadFallback := true }))
      else do
        let (startedAll, startedThreads) ← callEach start 0 c.workers.toNat
        if !startedAll && startedThreads = 0 then do
          forEach close 0 createdThreads
          pure (some (false, { l with threadFallback := true }))
        else do
          let ended ← waitWorkers c.durationMs testStarted startedThreads fuel
          match ended with
          | none => pure none
          | some ended =>
            let l := { l with userAborted := l.userAborted || ended = .userAbort }
            let l ← finish startedThreads createdThreads l
            if l.totals.status = .fail then pure (some (false, l))
            else do
              let stop ← Program.call ThreadCall.loadStop
              if stop then pure (some (false, l))
              else if c.durationMs = 0 then pure (some (false, l))
              else pure (some (true, { l with passIndex := l.passIndex + 1 }))

def loop (c : MainConfig) (cpuMap : List Int) (testStarted : Word) :
    Nat → Locals → Threaded (Option Locals)
  | 0, _ => pure none
  | fuel + 1, l => do
    let turn ← pass c cpuMap testStarted fuel l
    match turn with
    | none => pure none
    | some (true, l) => loop c cpuMap testStarted fuel l
    | some (false, l) => pure (some l)

/-- The single-worker pass that stands in when no thread could be had. -/
def fallback (c : MainConfig) (l : Locals) : Threaded Locals :=
  if l.threadFallback then do
    Program.call (ThreadCall.storeStop false)
    let ctx ← ofRunner (nxmtWorkerEntry (workerContext c 1 l.passIndex false 0))
    pure { l with
      totals := mergeWorkerContext ctx l.totals
      passesCompleted := l.passesCompleted + 1 }
  else pure l

def stopIf (active : Bool) (call : Threaded Unit) : Threaded Unit :=
  if active then call else pure ()

/-- From the carve-out to the final status. -/
def run (mode : NxmtMode) (seed durationMs : Word) (arena : NxmtArena) (mask : Word)
    (report : NxmtReport) (fuel : Nat) : Threaded (Option MainResult) := do
  let cpuMap := workerCpuMap mask
  let carved ← carveOut mode arena cpuMap (BitVec.ofNat 32 cpuMap.length)
  let c : MainConfig := ⟨mode, seed, durationMs, carved.cpuArena, carved.workers⟩
  let testStarted ← Program.call ThreadCall.ticksMs
  Program.call (ThreadCall.storeStop false)
  let ended ← loop c cpuMap testStarted fuel ⟨initTotals report, 0, 0, false, false⟩
  match ended with
  | none => pure none
  | some l => do
    let l ← fallback c l
    Program.call (ThreadCall.storeStop true)
    stopIf carved.cpuFillerActive (Program.call ThreadCall.cpuFillerStop)
    stopIf carved.gpuPumpActive (Program.call ThreadCall.gpuPumpStop)
    let gpuErrBatches ← Program.call ThreadCall.gpuPumpErrBatches
    let status := finalStatus l.userAborted gpuErrBatches l.totals.report l.totals.status
    let stop ← Program.call ThreadCall.loadStop
    pure (some ⟨status,
      ⟨l.totals, l.passesCompleted, l.passIndex, stop, l.userAborted, l.threadFallback⟩, c,
      testStarted, gpuErrBatches⟩)

end Threaded
end NxMemTest
