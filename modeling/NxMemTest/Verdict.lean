import NxMemTest.MainTrace
import NxMemTest.PartitionRun

/-! The verdict of a run. A worker that found something fails, a failing worker
makes the totals fail whatever else is merged, and neither the GPU escalation nor
the promotion of a timed-out run takes that back. -/

namespace NxMemTest
open Interaction Program

structure WorkerRun.Found {ctx : NxmtWorkerContext} {stop : Bool} (run : WorkerRun ctx stop) :
    Prop where
  report : Denotes run.result.report (records run.events)
  fail_iff : run.result.status = .fail ↔ records run.events ≠ []
  supported : run.result.status ≠ .unsupported
  aborted : run.result.status = .aborted → stop = true

theorem WorkerRun.ran {ctx : NxmtWorkerContext} {stop : Bool} (run : WorkerRun ctx stop)
    (ok : Accepts ctx.arena ctx.config) :
    ∃ out finished, PhasesRan (sliceStart ctx.arena ctx.config) (sliceCount ctx.arena ctx.config)
        (nxmtReportInit ctx.report).errorCount (nxmtPhasesForMode ctx.config.mode)
        (nxmtReportInit ctx.report) ⟨0, 0, 0, .fixedA⟩ run.events out finished ∧
      run.result.report = (nxmtReportInit ctx.report).recordAll (records run.events) ∧
      run.result.status = out.status := by
  obtain ⟨out, u, v, shape, hu, hv⟩ := path_bind.1 run.path
  obtain ⟨rfl, result⟩ := path_pure.1 hv
  rw [List.append_nil] at shape
  rw [← shape] at hu
  obtain ⟨finished, ran⟩ := path_nxmtRunnerRunPass (nxmtReportInit ctx.report) ctx.stats ok hu
  refine ⟨out, finished, ran, ?_, ?_⟩
  · rw [result, ran.report_eq]
    rfl
  · rw [result]

theorem WorkerRun.stopped {ctx : NxmtWorkerContext} {stop : Bool} (run : WorkerRun ctx stop)
    (ok : Accepts ctx.arena ctx.config) (aborted : run.result.status = .aborted) : stop = true := by
  obtain ⟨out, finished, ran, -, status⟩ := run.ran ok
  rw [status, ran.status_eq, verdict] at aborted
  cases finished with
  | true =>
    simp only [if_true] at aborted
    split at aborted <;> cases aborted
  | false =>
    have ends : Cut run.events := ran.ends
    by_contra down
    exact ends.not_quiet (run.quiet (Bool.eq_false_of_not_eq_true down))

theorem WorkerRun.supported {ctx : NxmtWorkerContext} {stop : Bool} (run : WorkerRun ctx stop)
    (ok : Accepts ctx.arena ctx.config) : run.result.status ≠ .unsupported := by
  obtain ⟨out, finished, ran, -, status⟩ := run.ran ok
  rw [status, ran.status_eq, verdict]
  split
  · decide
  · split <;> decide

theorem WorkerRun.pass_of_down {ctx : NxmtWorkerContext} {stop : Bool} (run : WorkerRun ctx stop)
    (ok : Accepts ctx.arena ctx.config) (down : stop = false)
    (clean : run.result.status ≠ .fail) : run.result.status = .pass := by
  have supported := run.supported ok
  have stopped := run.stopped ok
  cases status : run.result.status with
  | pass => rfl
  | fail => exact absurd status clean
  | aborted => exact absurd (stopped status) (by simp [down])
  | unsupported => exact absurd status supported

theorem WorkerRun.found {ctx : NxmtWorkerContext} {stop : Bool} (run : WorkerRun ctx stop)
    (ok : Accepts ctx.arena ctx.config) (few : (records run.events).length < 2 ^ 64) :
    run.Found := by
  obtain ⟨out, finished, ran, report, status⟩ := run.ran ok
  refine ⟨?_, ?_, run.supported ok, run.stopped ok⟩
  · rw [report]
    have denotes := (Denotes.init ctx.report).recordAll (records run.events)
    rwa [List.nil_append] at denotes
  · rw [status]
    exact ran.fail_iff few

def workerRecords (workers : List FinishedWorker) : List RecordCall :=
  workers.flatMap fun f => records f.run.events

/-- Totals that stand for the recordings `l`; `stopped` is what an abort tells. -/
structure Totals.Sound (totals : Totals) (l : List RecordCall) (stopped : Prop) : Prop where
  report : Denotes totals.report l
  fail_iff : totals.status = .fail ↔ l ≠ []
  supported : totals.status ≠ .unsupported
  aborted : totals.status = .aborted → stopped

theorem initTotals_sound (report : NxmtReport) (stopped : Prop) :
    (initTotals report).Sound [] stopped :=
  ⟨Denotes.init report, by simp [initTotals], by simp [initTotals], by simp [initTotals]⟩

theorem combineWorkerStatus_aborted {current workerStatus : NxmtStatus}
    (h : combineWorkerStatus current workerStatus = .aborted) :
    current = .aborted ∨ workerStatus = .aborted := by
  cases current <;> cases workerStatus <;> revert h <;> decide

theorem Totals.Sound.merge {totals : Totals} {l : List RecordCall} {stopped : Prop}
    (h : totals.Sound l stopped) (f : FinishedWorker)
    (ok : Accepts f.context.arena f.context.config) (few : (records f.run.events).length < 2 ^ 64)
    (raised : f.stop = true → stopped) :
    (mergeWorkerContext f.run.result totals).Sound (l ++ records f.run.events) stopped := by
  have found := f.run.found ok few
  refine ⟨h.report.merge found.report few, ?_, ?_, fun aborted => ?_⟩
  · refine (combineWorkerStatus_fail _ _).trans ?_
    rw [h.fail_iff, found.fail_iff, ← not_and_or, ← List.append_eq_nil_iff]
  · exact combineWorkerStatus_unsupported h.supported found.supported
  · exact (combineWorkerStatus_aborted aborted).elim h.aborted fun a => raised (found.aborted a)

theorem mergeAll_sound {stopped : Prop} (workers : List FinishedWorker) {totals : Totals}
    {l : List RecordCall} (h : totals.Sound l stopped)
    (ok : ∀ f ∈ workers, Accepts f.context.arena f.context.config)
    (few : (workerRecords workers).length < 2 ^ 64)
    (raised : ∀ f ∈ workers, f.stop = true → stopped) :
    (mergeAll workers totals).Sound (l ++ workerRecords workers) stopped := by
  induction workers generalizing totals l with
  | nil => simpa [mergeAll, workerRecords] using h
  | cons f workers ih =>
    rw [workerRecords, List.flatMap_cons, ← workerRecords, List.length_append] at few
    rw [workerRecords, List.flatMap_cons, ← workerRecords, ← List.append_assoc]
    exact ih (h.merge f (ok f List.mem_cons_self) (by omega) (raised f List.mem_cons_self))
      (fun g hg => ok g (List.mem_cons_of_mem _ hg)) (by omega)
      fun g hg => raised g (List.mem_cons_of_mem _ hg)

theorem finalStatus_sound {totals : Totals} {l : List RecordCall} {stopped : Prop}
    (h : totals.Sound l stopped) (few : l.length < 2 ^ 64) (userAborted : Bool)
    (gpuErrBatches : Word) :
    let status := finalStatus userAborted gpuErrBatches totals.report totals.status
    (status = .fail ↔ totals.report.errorCount ≠ 0 ∨ gpuErrBatches ≠ 0) ∧
      (status = .aborted → userAborted = true) ∧ status ≠ .unsupported := by
  have count := h.report.errorCount_eq_zero few
  have supported := h.supported
  have fail_iff := h.fail_iff
  simp only [finalStatus, ne_eq, count]
  generalize totals.status = status at supported fail_iff ⊢
  by_cases clean : gpuErrBatches = 0
  · have quiet : ¬ gpuErrBatches > 0 := by bv_omega
    simp only [if_neg quiet, eq_true clean, not_true, or_false]
    cases status with
    | unsupported => exact absurd rfl supported
    | fail => simpa using fail_iff
    | pass => simpa using fail_iff
    | aborted =>
      have none : l = [] := by simpa using fail_iff
      cases userAborted <;> simp [none]
  · have raised : gpuErrBatches > 0 := by bv_omega
    have failed : (if ¬ status = .fail then .fail else status) = NxmtStatus.fail := by
      split
      · rfl
      · rename_i h
        exact not_not.1 h
    simp only [if_pos raised, failed, eq_false clean]
    simp

theorem workerContext_config (c : MainConfig) (workers : BitVec 32) (pass : Word)
    (progressBytes : Bool) (worker : Nat) :
    (workerContext c workers pass progressBytes worker).config = NxmtRunConfig.forWorker
      ⟨c.mode, c.seed, pass, 0, workers, false, true, progressBytes⟩ workers worker := rfl

theorem workerContext_accepts {c : MainConfig} (fit : c.Fit) {workers : BitVec 32}
    {worker : Nat} (few : worker < workers.toNat) (pass : Word) (progressBytes : Bool) :
    Accepts (workerContext c workers pass progressBytes worker).arena
      (workerContext c workers pass progressBytes worker).config := by
  rw [workerContext_config]
  exact fit.wellFormed.accepts fit.base fit.words (forWorker_worker few)

theorem Started.accepts {c : MainConfig} (fit : c.Fit) {e : Event MainCall.Answer}
    (h : Started c e) : ∀ f ∈ finishedWorkers e, Accepts f.context.arena f.context.config := by
  obtain ⟨call, answer⟩ := e
  cases call with
  | runWorkers started contexts stop =>
    obtain ⟨workers, pass, progressBytes, -, few, rfl⟩ := h
    intro f hf
    obtain ⟨worker, -, rfl⟩ := List.mem_map.1 hf
    exact workerContext_accepts fit (Nat.lt_of_lt_of_le worker.isLt few) pass progressBytes
  | _ => exact fun f hf => absurd hf List.not_mem_nil

theorem MainRan.accepts {mode : NxmtMode} {durationMs : Word} {report : NxmtReport}
    {t : List (Event MainCall.Answer)} {out : MainResult} (h : MainRan mode durationMs report t out) :
    ∀ f ∈ finished t, Accepts f.context.arena f.context.config := by
  intro f hf
  obtain ⟨e, he, hf⟩ := List.mem_flatMap.1 hf
  exact (h.ran.started e he).accepts h.fit f hf

/-- No recorded fault is hidden from the verdict, whichever workers are merged in
whatever order, and so in every run of the main loop. -/
theorem mainRun_verdict :
    (∀ (workers : List FinishedWorker) (total : NxmtReport) (userAborted : Bool)
        (gpuErrBatches : Word),
      (∀ f ∈ workers, Accepts f.context.arena f.context.config) →
      (workerRecords workers).length < 2 ^ 64 →
      let totals := mergeAll workers (initTotals total)
      let status := finalStatus userAborted gpuErrBatches totals.report totals.status
      Denotes totals.report (workerRecords workers) ∧
        (status = .fail ↔ totals.report.errorCount ≠ 0 ∨ gpuErrBatches ≠ 0) ∧
        (status = .aborted → userAborted = true) ∧ status ≠ .unsupported) ∧
    ∀ (base size : Word) (mode : NxmtMode) (seed durationMs : Word) (workers : BitVec 32)
        (report : NxmtReport) (fuel : Nat) (t : List (Event MainCall.Answer)) (out : MainResult),
      (nxmtArenaFromRange base size).base ≠ 0 → (nxmtArenaFromRange base size).words ≠ 0 →
      workers ≠ 0 →
      Path (mainRun mode seed durationMs (nxmtArenaFromRange base size) workers report fuel) t
        (some out) →
      (workerRecords (finished t)).length < 2 ^ 64 →
      Denotes out.state.totals.report (workerRecords (finished t)) ∧
        (out.status = .fail ↔ out.state.totals.report.errorCount ≠ 0 ∨ out.gpuErrBatches ≠ 0) ∧
        (out.status = .aborted → ∃ e ∈ t, abortSeen e = true) ∧ out.status ≠ .unsupported := by
  refine ⟨fun workers total userAborted gpuErrBatches ok few => ?_, ?_⟩
  · have sound := mergeAll_sound workers (initTotals_sound total True) ok few
      fun _ _ _ => trivial
    exact ⟨sound.report, finalStatus_sound sound few userAborted gpuErrBatches⟩
  · intro base size mode seed durationMs workers report fuel t out hbase hwords hworkers path few
    have ran := path_mainRun hbase (nxmtArenaFromRange_wellFormed hwords) hwords hworkers path
    have sound := mergeAll_sound (finished t) (initTotals_sound report True) ran.accepts few
      fun _ _ _ => trivial
    rw [← ran.ran.totals] at sound
    obtain ⟨failed, aborted, supported⟩ :=
      finalStatus_sound sound few out.state.userAborted out.gpuErrBatches
    rw [← ran.status_eq] at failed aborted supported
    have seen := fun h => (ran.ran.aborted (aborted h)).resolve_left (by simp)
    exact ⟨sound.report, failed, seen, supported⟩

/-! ### A scripted run -/

def calmServe (stop : Bool) : (c : Call) → Unit → Call.Answer c × Unit
  | .stopRequested, _ => (stop, ())
  | .writeChunk .., _ => ((), ())
  | .verifyChunk .., _ => ([], ())
  | .load _, _ => (0, ())
  | .store _ _, _ => ((), ())
  | .progressAdd _, _ => ((), ())

theorem calmServe_quiet {α : Type} (p : Runner α) : Quiet (trace (calmServe false) p ()) := by
  intro e he
  obtain ⟨_, answer⟩ := mem_trace (calmServe false) he
  obtain ⟨c, r⟩ := e
  cases c with
  | stopRequested => exact answer
  | _ => rfl

def calmRun (ctx : NxmtWorkerContext) (stop : Bool) : WorkerRun ctx stop where
  events := trace (calmServe stop) (nxmtWorkerEntry ctx) ()
  result := (exec (calmServe stop) (nxmtWorkerEntry ctx) ()).1
  path := path_trace _ _ _
  quiet := fun down => down ▸ calmServe_quiet _

/-- Threads start, nobody aborts, reading number `k` of the clock gives `clock k`
and `finished` workers have finished whenever the main thread looks. -/
def scripted (clock : Nat → Word) (finished : BitVec 32) :
    (e : MainCall) → Nat → MainCall.Answer e × Nat
  | .gpuPumpStart .., k => (false, k)
  | .ticksMs, k => (clock k, k + 1)
  | .threadCreate _, k => (true, k)
  | .threadStart _, k => (true, k)
  | .finishedWorkers, k => (finished, k)
  | .appletMainLoop, k => (true, k)
  | .readPlus, k => (false, k)
  | .runWorkers _ contexts stop, k => (fun worker => calmRun (contexts worker) stop, k)
  | .gpuPumpErrBatches, k => (0, k)

def findingServe (call : RecordCall) : (c : Call) → Unit → Call.Answer c × Unit
  | .verifyChunk .., _ => ([call], ())
  | c, _ => calmServe false c ()

def findingRun (call : RecordCall) (ctx : NxmtWorkerContext) (stop : Bool) : WorkerRun ctx stop where
  events := trace (findingServe call) (nxmtWorkerEntry ctx) ()
  result := (exec (findingServe call) (nxmtWorkerEntry ctx) ()).1
  path := path_trace _ _ _
  quiet := by
    intro _ e he
    obtain ⟨_, answer⟩ := mem_trace (findingServe call) he
    obtain ⟨c, r⟩ := e
    cases c with
    | stopRequested => exact answer
    | _ => rfl

def quickRun : Main (Option MainResult) :=
  mainRun .quick 1 0 (nxmtArenaFromRange 0x1000 0x1000) 1 zeroReport 2

def zeroRead : RecordCall := ⟨.quick, .fixedA, 1, 0, 0, 24, 0xaaaaaaaaaaaaaaaa, 0⟩

def zeroReadServe : (e : MainCall) → Nat → MainCall.Answer e × Nat
  | .runWorkers _ contexts stop, k => (fun worker => findingRun zeroRead (contexts worker) stop, k)
  | e, k => scripted (fun _ => 0) 1 e k

/-- Each of the three phases has found a fault. -/
theorem mainRun_verdict_zeroRead :
    let t := trace zeroReadServe quickRun 0
    ∃ out, Path quickRun t (some out) ∧ workerRecords (finished t) = List.replicate 3 zeroRead ∧
      Denotes out.state.totals.report (workerRecords (finished t)) ∧ out.status = .fail := by
  intro t
  have ends : ((exec zeroReadServe quickRun 0).1.map fun out =>
      out.state.totals.report.errorCount) = some 3 := by decide +kernel
  have found : workerRecords (finished t) = List.replicate 3 zeroRead := by decide +kernel
  obtain ⟨out, path, count⟩ := path_of_exec_map _ ends
  obtain ⟨denotes, failed, -⟩ := mainRun_verdict.2 0x1000 0x1000 .quick 1 0 1 zeroReport 2 t out
    (by decide) (by decide) (by decide) path (by rw [found]; decide)
  refine ⟨out, path, found, denotes, failed.2 (.inl ?_)⟩
  rw [count]
  decide

/-- The smallest arena that the menu takes for `MEMORY_LOAD`: 256 MiB. -/
def menuArena : NxmtArena := nxmtArenaFromRange 0x10000000 0x10000000

/-- One worker, and three minutes that are over when it is first polled. -/
def timedOut : Main (Option MainResult) := mainRun .memoryLoad 1 180000 menuArena 1 zeroReport 2

def timedOutServe : (e : MainCall) → Nat → MainCall.Answer e × Nat :=
  scripted (fun k => if k < 2 then 0 else 180000) 0

theorem timedOut_ends : ∃ out, Path timedOut (trace timedOutServe timedOut 0) (some out) ∧
    out.status = .pass ∧ out.config.cpuArena = menuArena := by
  have ends : ((exec timedOutServe timedOut 0).1.map fun out =>
      (out.status, out.config.cpuArena)) = some (.pass, menuArena) := by decide +kernel
  obtain ⟨out, path, values⟩ := path_of_exec_map _ ends
  exact ⟨out, path, congrArg Prod.fst values, congrArg Prod.snd values⟩

end NxMemTest
