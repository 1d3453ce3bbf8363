import NxMemTest.Verdict

/-! What `PASS` says was tested. A pass that all its workers finish writes and
verifies every word in every phase; the promotion of a run that timed out may
report `PASS` before any pass got that far. -/

namespace NxMemTest
open Interaction Program

/-- A pass in which every word of the arena was written and verified in every
phase of the mode. -/
def Covered (arena : NxmtArena) (mode : NxmtMode) : Event MainCall.Answer → Prop
  | ⟨.runWorkers started contexts _, runs⟩ =>
    ∀ phase ∈ nxmtPhasesForMode mode, ∀ w < arena.words.toNat, ∃ worker : Fin started,
      (contexts worker).arena = arena ∧ (phase, w) ∈ writtenWords (runs worker).events ∧
        (phase, w) ∈ verifiedWords (runs worker).events
  | _ => False

/-- A pass with all the workers that its words are shared out to. -/
def AllStarted : Event MainCall.Answer → Prop
  | ⟨.runWorkers started contexts _, _⟩ => started = (contexts 0).config.workerCount.toNat
  | _ => True

instance : DecidablePred AllStarted
  | ⟨.runWorkers started contexts _, _⟩ =>
    inferInstanceAs (Decidable (started = (contexts 0).config.workerCount.toNat))
  | ⟨.gpuPumpStart .., _⟩ | ⟨.ticksMs, _⟩ | ⟨.threadCreate _, _⟩ | ⟨.threadStart _, _⟩
  | ⟨.finishedWorkers, _⟩ | ⟨.appletMainLoop, _⟩ | ⟨.readPlus, _⟩ | ⟨.gpuPumpErrBatches, _⟩ =>
    isTrue trivial

theorem WorkerRun.whole {ctx : NxmtWorkerContext} {stop : Bool} (run : WorkerRun ctx stop)
    (ok : Accepts ctx.arena ctx.config) (pass : run.result.status = .pass) :
    writtenWords run.events = phaseWords (nxmtPhasesForMode ctx.config.mode)
        (sliceStart ctx.arena ctx.config) (sliceCount ctx.arena ctx.config) ∧
      verifiedWords run.events = phaseWords (nxmtPhasesForMode ctx.config.mode)
        (sliceStart ctx.arena ctx.config) (sliceCount ctx.arena ctx.config) := by
  obtain ⟨out, finished, ran, -, status⟩ := run.ran ok
  have whole : finished = true := by
    rw [status, ran.status_eq, verdict] at pass
    cases finished with
    | true => rfl
    | false =>
      simp only [Bool.false_eq_true, if_false] at pass
      split at pass <;> cases pass
  exact ⟨ran.written_all whole, ran.verified_all whole⟩

theorem covered_of_pass {c : MainConfig} (fit : c.Fit) {e : Event MainCall.Answer}
    (h : Started c e) (all : AllStarted e) (some : finishedWorkers e ≠ [])
    (pass : ∀ f ∈ finishedWorkers e, f.run.result.status = .pass) :
    Covered c.cpuArena c.mode e := by
  obtain ⟨call, runs⟩ := e
  cases call with
  | runWorkers started contexts stop =>
    obtain ⟨workers, index, progressBytes, pos, few, rfl⟩ := h
    have count : started = workers.toNat := all
    subst count
    intro phase hphase w hw
    obtain ⟨i, hi, low, high⟩ := Partition.exists_block_of_lt pos hw
    have passed := pass ⟨_, _, runs ⟨i, hi⟩⟩ (List.mem_map.2 ⟨⟨i, hi⟩, List.mem_finRange _, rfl⟩)
    obtain ⟨written, verified⟩ :=
      (runs ⟨i, hi⟩).whole (workerContext_accepts fit hi index progressBytes) passed
    obtain ⟨start, size⟩ := forWorker_slice c.cpuArena
      ⟨c.mode, c.seed, index, 0, workers, false, true, progressBytes⟩ hi
    have inside : (phase, w) ∈ phaseWords (nxmtPhasesForMode c.mode)
        (sliceStart c.cpuArena (workerContext c workers index progressBytes i).config)
        (sliceCount c.cpuArena (workerContext c workers index progressBytes i).config) := by
      rw [workerContext_config, start, size]
      exact mem_phaseWords.2 ⟨hphase, low, high⟩
    exact ⟨⟨i, hi⟩, rfl, written ▸ inside, verified ▸ inside⟩
  | _ => exact absurd rfl some

theorem mergeAll_pass (workers : List FinishedWorker) (totals : Totals) :
    (mergeAll workers totals).status = .pass ↔
      totals.status = .pass ∧ ∀ f ∈ workers, f.run.result.status = .pass := by
  induction workers generalizing totals with
  | nil => simp [mergeAll]
  | cons f workers ih =>
    refine (ih (mergeWorkerContext f.run.result totals)).trans ?_
    have step : (mergeWorkerContext f.run.result totals).status = .pass ↔
        totals.status = .pass ∧ f.run.result.status = .pass := combineWorkerStatus_pass _ _
    rw [step, List.forall_mem_cons, and_assoc]

theorem mergeAll_fail (workers : List FinishedWorker) (totals : Totals) :
    (mergeAll workers totals).status = .fail ↔
      totals.status = .fail ∨ ∃ f ∈ workers, f.run.result.status = .fail := by
  induction workers generalizing totals with
  | nil => simp [mergeAll]
  | cons f workers ih =>
    refine (ih (mergeWorkerContext f.run.result totals)).trans ?_
    have step : (mergeWorkerContext f.run.result totals).status = .fail ↔
        totals.status = .fail ∨ f.run.result.status = .fail := combineWorkerStatus_fail _ _
    rw [step, List.exists_mem_cons_iff, or_assoc]

theorem mergeAll_aborted (workers : List FinishedWorker) (totals : Totals)
    (h : (mergeAll workers totals).status = .aborted) :
    totals.status = .aborted ∨ ∃ f ∈ workers, f.run.result.status = .aborted := by
  induction workers generalizing totals with
  | nil => exact .inl h
  | cons f workers ih =>
    rcases ih _ h with before | ⟨g, hg, aborted⟩
    · refine (combineWorkerStatus_aborted before).imp_right fun aborted => ?_
      exact ⟨f, List.mem_cons_self, aborted⟩
    · exact .inr ⟨g, List.mem_cons_of_mem _ hg, aborted⟩

theorem finalStatus_pass {userAborted : Bool} {gpuErrBatches : Word} {report : NxmtReport}
    {status : NxmtStatus} (h : finalStatus userAborted gpuErrBatches report status = .pass) :
    status = .pass ∨ status = .aborted ∧ userAborted = false := by
  by_cases raised : gpuErrBatches > 0
  · simp only [finalStatus, if_pos raised] at h
    cases status <;> simp at h
  · simp only [finalStatus, if_neg raised] at h
    cases status with
    | pass => exact .inl rfl
    | aborted =>
      cases userAborted with
      | false => exact .inr ⟨rfl, rfl⟩
      | true => simp at h
    | fail | unsupported => simp at h

theorem finishedWorkers_stop {e : Event MainCall.Answer} {f g : FinishedWorker}
    (hf : f ∈ finishedWorkers e) (hg : g ∈ finishedWorkers e) : g.stop = f.stop := by
  obtain ⟨call, runs⟩ := e
  cases call with
  | runWorkers =>
    obtain ⟨_, -, rfl⟩ := List.mem_map.1 hf
    obtain ⟨_, -, rfl⟩ := List.mem_map.1 hg
    rfl
  | _ => exact absurd hf List.not_mem_nil

/-- If no pass ran with only some of its workers, `PASS` means that some pass
covered the arena, unless the duration was over before any pass had ended with
the stop flag down. -/
theorem mainRun_pass_covered (base size : Word) (mode : NxmtMode) (seed durationMs : Word)
    (workers : BitVec 32) (report : NxmtReport) (fuel : Nat) (t : List (Event MainCall.Answer))
    (out : MainResult) (hbase : (nxmtArenaFromRange base size).base ≠ 0)
    (hwords : (nxmtArenaFromRange base size).words ≠ 0) (hworkers : workers ≠ 0)
    (path : Path (mainRun mode seed durationMs (nxmtArenaFromRange base size) workers report fuel) t
      (some out))
    (all : ∀ e ∈ t, AllStarted e) (pass : out.status = .pass) :
    (∃ e ∈ t, Covered out.config.cpuArena mode e) ∨
      Expired durationMs out.testStarted t ∧ ∀ f ∈ finished t, f.stop = true := by
  have ran := path_mainRun hbase (nxmtArenaFromRange_wellFormed hwords) hwords hworkers path
  have fit := ran.fit
  have covered : ∀ f ∈ finished t, (∀ e ∈ t, f ∈ finishedWorkers e →
      ∀ g ∈ finishedWorkers e, g.run.result.status = .pass) →
      ∃ e ∈ t, Covered out.config.cpuArena mode e := by
    intro f hf passed
    obtain ⟨e, he, hf'⟩ := List.mem_flatMap.1 hf
    exact ⟨e, he, ran.mode_eq ▸ covered_of_pass fit (ran.ran.started e he) (all e he)
      (List.ne_nil_of_mem hf') (passed e he hf')⟩
  rw [ran.status_eq, ran.ran.totals] at pass
  rcases finalStatus_pass pass with passed | ⟨aborted, user⟩
  · rw [mergeAll_pass] at passed
    by_cases none : finished t = []
    · have late := ran.busy.resolve_left (not_not.2 none)
      refine .inr ⟨ran.duration_eq ▸ late, fun f hf => ?_⟩
      rw [none] at hf
      exact absurd hf List.not_mem_nil
    · obtain ⟨f, hf⟩ := List.exists_mem_of_ne_nil _ none
      exact .inl (covered f hf fun e he _ g hg => passed.2 g (List.mem_flatMap.2 ⟨e, he, hg⟩))
  · by_cases quiet : ∃ f ∈ finished t, f.stop = false
    · -- a pass with the flag down: none of its workers can have been aborted
      obtain ⟨f, hf, down⟩ := quiet
      refine .inl (covered f hf fun e he hf' g hg => ?_)
      have ok := (ran.ran.started e he).accepts fit g hg
      refine g.run.pass_of_down ok ((finishedWorkers_stop hf' hg).trans down) fun failed => ?_
      have sticky := (mergeAll_fail (finished t) (initTotals report)).2
        (.inr ⟨g, List.mem_flatMap.2 ⟨e, he, hg⟩, failed⟩)
      rw [sticky] at aborted
      cases aborted
    · -- the promoted run: somebody raised the flag, and it was not the user
      have all_raised : ∀ f ∈ finished t, f.stop = true := by
        intro f hf
        by_contra down
        exact quiet ⟨f, hf, Bool.eq_false_of_not_eq_true down⟩
      rcases mergeAll_aborted _ _ aborted with initial | ⟨f, hf, -⟩
      · cases initial
      · rcases ran.ran.stopped f hf (all_raised f hf) with quit | late
        · rw [user] at quit
          cases quit
        · exact .inr ⟨ran.duration_eq ▸ late, all_raised⟩

def quickRunServe : (e : MainCall) → Nat → MainCall.Answer e × Nat := scripted (fun _ => 0) 1

theorem quickRun_ends : ∃ out, Path quickRun (trace quickRunServe quickRun 0) (some out) ∧
    out.status = .pass ∧ out.config.cpuArena = nxmtArenaFromRange 0x1000 0x1000 := by
  have ends : ((exec quickRunServe quickRun 0).1.map fun out => (out.status, out.config.cpuArena)) =
      some (.pass, nxmtArenaFromRange 0x1000 0x1000) := by
    decide +kernel
  obtain ⟨out, path, values⟩ := path_of_exec_map _ ends
  exact ⟨out, path, congrArg Prod.fst values, congrArg Prod.snd values⟩

theorem quickRun_allStarted : ∀ e ∈ trace quickRunServe quickRun 0, AllStarted e := by
  decide +kernel

theorem mainRun_pass_covered_quick :
    ∃ e ∈ trace quickRunServe quickRun 0, Covered (nxmtArenaFromRange 0x1000 0x1000) .quick e := by
  obtain ⟨out, path, pass, arena⟩ := quickRun_ends
  have covered := mainRun_pass_covered 0x1000 0x1000 .quick 1 0 1 zeroReport 2 _ out (by decide)
    (by decide) (by decide) path quickRun_allStarted pass
  rw [arena] at covered
  exact covered.resolve_right fun late => late.1.1 rfl

/-- A run that times out while its only worker has written nothing: `PASS`. -/
theorem mainRun_pass_untested :
    ∃ out, Path timedOut (trace timedOutServe timedOut 0) (some out) ∧ out.status = .pass ∧
      ¬ ∃ e ∈ trace timedOutServe timedOut 0, Covered out.config.cpuArena .memoryLoad e := by
  obtain ⟨out, path, pass, arena⟩ := timedOut_ends
  refine ⟨out, path, pass, ?_⟩
  rintro ⟨⟨call, runs⟩, he, covered⟩
  have idle : ∀ f ∈ finished (trace timedOutServe timedOut 0), writtenWords f.run.events = [] := by
    decide
  cases call with
  | runWorkers started contexts stop =>
    obtain ⟨worker, -, written, -⟩ := covered .fixedA (by decide) 0 (by rw [arena]; decide)
    have none := idle ⟨_, _, runs worker⟩
      (List.mem_flatMap.2 ⟨_, he, List.mem_map.2 ⟨worker, List.mem_finRange _, rfl⟩⟩)
    dsimp only at none
    rw [none] at written
    exact absurd written List.not_mem_nil
  | _ => exact covered

end NxMemTest
