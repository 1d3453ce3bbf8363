import NxMemTest.Board

/-! Stopping a pass. Polls sit at the top of each phase and before each chunk; the
first one answered true is the last thing a pass does, and what it leaves behind
is a cut of the pass that nobody stops. -/

namespace NxMemTest
open Interaction Program

def Unsupported (arena : Option NxmtArena) (config : Option NxmtRunConfig)
    (report : Option NxmtReport) (stats : Option NxmtRunStats) : Prop :=
  arena = none ∨ config = none ∨ report = none ∨ stats = none ∨
    (∃ a ∈ arena, a.base = 0 ∨ a.words = 0 ∨ a.base % 8 ≠ 0) ∨
    ∃ c ∈ config, c.workerCount = 0 ∨ c.workerId ≥ c.workerCount

theorem unsupported_some (arena : NxmtArena) (config : NxmtRunConfig) (report : NxmtReport)
    (stats : NxmtRunStats) :
    Unsupported (some arena) (some config) (some report) (some stats) ↔ ¬ Accepts arena config := by
  constructor
  · intro bad ok
    obtain h | h | h | h | ⟨a, ha, h⟩ | ⟨c, hc, h⟩ := bad
    · cases h
    · cases h
    · cases h
    · cases h
    · cases ha
      exact h.elim ok.base fun h => h.elim ok.words fun h => h ok.aligned
    · cases hc
      exact h.elim ok.workers fun h => absurd ok.worker (BitVec.not_lt.2 h)
  · intro bad
    by_contra fine
    simp only [Unsupported, reduceCtorEq, Option.mem_def, Option.some.injEq, exists_eq_left',
      false_or, not_or, not_not] at fine
    obtain ⟨⟨base, words, aligned⟩, workers, worker⟩ := fine
    exact bad ⟨base, words, workers, BitVec.not_le.1 worker, aligned⟩

theorem unsupported_cases (arena : Option NxmtArena) (config : Option NxmtRunConfig)
    (report : Option NxmtReport) (stats : Option NxmtRunStats) :
    (Unsupported arena config report stats ∧ ∃ cleared, nxmtRunnerRunPass arena config report stats =
        pure ⟨.unsupported, report, cleared⟩) ∨
      (¬ Unsupported arena config report stats ∧ ∃ a c r s, arena = some a ∧ config = some c ∧
        report = some r ∧ stats = some s ∧ Accepts a c) := by
  rcases stats with _ | stats
  · exact .inl ⟨by simp [Unsupported], _, rfl⟩
  rcases arena with _ | arena
  · exact .inl ⟨by simp [Unsupported], _, rfl⟩
  rcases config with _ | config
  · exact .inl ⟨by simp [Unsupported], _, rfl⟩
  rcases report with _ | report
  · exact .inl ⟨by simp [Unsupported], _, rfl⟩
  by_cases ok : Accepts arena config
  · exact .inr ⟨by simpa [unsupported_some] using ok, _, _, _, _, rfl, rfl, rfl, rfl, ok⟩
  · exact .inl ⟨(unsupported_some _ _ _ _).2 ok, _, nxmtRunnerRunPass_refuses _ _ ok⟩

section
variable {σ : Type} (env : Env σ)

theorem unstopped_quiet {α : Type} (p : Runner α) (b : Board σ) :
    Quiet (trace env.unstopped.serve p b) := by
  intro e he
  obtain ⟨b', answer⟩ := mem_trace env.unstopped.serve he
  obtain ⟨c, r⟩ := e
  cases c with
  | stopRequested => exact answer
  | _ => rfl

theorem trace_unstopped {α : Type} (p : Runner α) (b : Board σ) :
    trace env.serve p b = trace env.unstopped.serve p b ∨
      ∃ t u u', Quiet t ∧ trace env.serve p b = t ++ ⟨.stopRequested, true⟩ :: u ∧
        trace env.unstopped.serve p b = t ++ ⟨.stopRequested, false⟩ :: u' := by
  have agree : ∀ c b, (env.serve c b).1 = (env.unstopped.serve c b).1 →
      (env.serve c b).2 = (env.unstopped.serve c b).2 := by
    intro c b _
    cases c <;> rfl
  rcases exec_parting env.serve env.unstopped.serve agree p b with
    ⟨-, same⟩ | ⟨c, b', t, u, u', differ, ht, ht'⟩
  · exact .inl same
  · cases c with
    | stopRequested =>
      have raised : env.stops b'.seat.polls = true := by
        by_contra down
        exact differ (Bool.eq_false_of_not_eq_true down)
      have quiet := unstopped_quiet env p b
      rw [ht', quiet_append] at quiet
      refine .inr ⟨t, u, u', quiet.1, ?_, ht'⟩
      rw [ht]
      exact congrArg (fun stop => t ++ ⟨.stopRequested, stop⟩ :: u) raised
    | _ => exact absurd rfl differ

theorem cut_unique {t u : List (Event Call.Answer)} (h : Cut (t ++ ⟨.stopRequested, true⟩ :: u))
    (quiet : Quiet t) : u = [] := by
  obtain ⟨v, hv, quiet_v⟩ := h
  rcases List.append_eq_append_iff.1 hv with ⟨w, rfl, hw⟩ | ⟨w, rfl, hw⟩
  · cases w with
    | nil => simpa using hw
    | cons e w =>
      simp only [List.cons_append, List.cons.injEq] at hw
      have stop := quiet_v e (by simp)
      rw [← hw.1] at stop
      exact absurd stop (by decide)
  · cases w with
    | nil => simpa using hw.symm
    | cons e w =>
      simp only [List.cons_append, List.cons.injEq, List.nil_eq_append_iff] at hw
      exact absurd hw.2.2 (by simp)

end

theorem nxmtRunnerRunPass_stop {σ : Type} (env : Env σ) (b : Board σ) (arena : Option NxmtArena)
    (config : Option NxmtRunConfig) (report : Option NxmtReport) (stats : Option NxmtRunStats)
    (small : ∀ a ∈ arena, a.words.toNat < 2 ^ 61) :
    let pass := nxmtRunnerRunPass arena config report stats
    let out := exec env.serve pass b
    let t := trace env.serve pass b
    let whole := trace env.unstopped.serve pass b
    (out.1.status = .unsupported ↔ Unsupported arena config report stats) ∧
      (Unsupported arena config report stats → out.1.report = report ∧ out.2 = b) ∧
      (¬ Unsupported arena config report stats →
        (out.1.status = .fail ↔ records t ≠ []) ∧
        (out.1.status = .aborted ↔ (∃ e ∈ t, stopSeen e = true) ∧ records t = []) ∧
        (out.1.status = .pass ↔ (∀ e ∈ t, stopSeen e = false) ∧ records t = [])) ∧
      out.1.report = report.map (·.recordAll (records t)) ∧
      (t = whole ∨ ∃ u v, Quiet u ∧ t = u ++ [⟨.stopRequested, true⟩] ∧
        whole = u ++ ⟨.stopRequested, false⟩ :: v) := by
  intro pass out t whole
  rcases unsupported_cases arena config report stats with
    ⟨bad, cleared, refused⟩ | ⟨fine, a, c, r, s, rfl, rfl, rfl, rfl, ok⟩
  · have out_eq : out = (⟨.unsupported, report, cleared⟩, b) := by
      simp only [out, pass, refused, exec_pure]
    have t_eq : t = [] := by simp only [t, pass, refused, trace_pure]
    have whole_eq : whole = [] := by simp only [whole, pass, refused, trace_pure]
    rw [out_eq, t_eq, whole_eq]
    refine ⟨by simp [bad], fun _ => ⟨rfl, rfl⟩, fun fine => absurd bad fine, ?_, .inl rfl⟩
    cases report <;> rfl
  · obtain ⟨finished, ran⟩ := path_nxmtRunnerRunPass r s ok (path_trace env.serve pass b)
    have few := ran.few (env.serve_honest pass b) (sliceCount_lt ok (small a rfl))
    have status_eq : out.1.status = _ := ran.status_eq
    simp only [verdict, ne_eq, NxmtReport.recordAll_errorCount_eq r few] at status_eq
    have parted : t = whole ∨ ∃ u v, Quiet u ∧ t = u ++ [⟨.stopRequested, true⟩] ∧
        whole = u ++ ⟨.stopRequested, false⟩ :: v := by
      rcases trace_unstopped env pass b with same | ⟨u, v, v', quiet, ht, hwhole⟩
      · exact .inl same
      · have ends := ran.ends
        rw [ht] at ends
        cases finished with
        | true => exact absurd (ends _ (by simp)) (by decide : ¬ stopSeen ⟨.stopRequested, true⟩ = false)
        | false =>
          have last := cut_unique ends quiet
          exact .inr ⟨u, v', quiet, by rw [← last]; exact ht, hwhole⟩
    have stopped : (∃ e ∈ t, stopSeen e = true) ↔ finished = false := by
      cases finished with
      | true =>
        constructor
        · rintro ⟨e, he, stop⟩
          rw [(ran.ends : Quiet t) e he] at stop
          exact stop.symm
        · intro cut
          exact absurd cut (by decide)
      | false =>
        obtain ⟨u, ht, -⟩ : Cut t := ran.ends
        exact ⟨fun _ => rfl, fun _ => ⟨⟨.stopRequested, true⟩, by rw [ht]; simp, rfl⟩⟩
    have unstopped : (∀ e ∈ t, stopSeen e = false) ↔ finished = true := by
      rw [← not_iff_not, Bool.not_eq_true, ← stopped]
      simp
    have statuses : out.1.status ≠ .unsupported ∧ (out.1.status = .fail ↔ records t ≠ []) ∧
        (out.1.status = .aborted ↔ finished = false ∧ records t = []) ∧
        (out.1.status = .pass ↔ finished = true ∧ records t = []) := by
      rw [status_eq]
      by_cases none : records t = []
      · cases finished <;> simp [t, none]
      · simp [t, none]
    obtain ⟨supported, failed, aborted, passed⟩ := statuses
    rw [← stopped] at aborted
    rw [← unstopped] at passed
    exact ⟨iff_of_false supported fine, fun bad => absurd bad fine,
      fun _ => ⟨failed, aborted, passed⟩, ran.report_eq, parted⟩

/-- One page that reads as `FIXED_A` and whose fourth poll is answered true: the pass is
aborted after its first phase. -/
theorem nxmtRunnerRunPass_stop_page :
    let env : Env Unit := ⟨⟨fun _ _ => (kFixedA, ()), fun _ _ _ => (), fun _ _ _ => ()⟩,
      fun _ m => m, fun k => k = 3⟩
    let pass := nxmtRunnerRunPass (some (nxmtArenaFromRange 0x1000 0x1000))
      (some ⟨.quick, 1, 0, 0, 1, false, true, false⟩) (some zeroReport) (some ⟨0, 0, 0, .fixedA⟩)
    let b : Board Unit := ⟨(), ⟨0, 0, false⟩⟩
    let out := exec env.serve pass b
    let t := trace env.serve pass b
    out.1.status = .aborted ∧ out.1.report = some (zeroReport.recordAll (records t)) ∧
      ∃ u v, Quiet u ∧ t = u ++ [⟨.stopRequested, true⟩] ∧
        trace env.unstopped.serve pass b = u ++ ⟨.stopRequested, false⟩ :: v := by
  intro env pass b out t
  have supported : ¬ Unsupported (some (nxmtArenaFromRange 0x1000 0x1000))
      (some ⟨.quick, 1, 0, 0, 1, false, true, false⟩) (some zeroReport)
      (some ⟨0, 0, 0, .fixedA⟩) := by
    rw [unsupported_some, not_not]
    exact ⟨by decide, by decide, by decide, by decide, by decide⟩
  obtain ⟨-, -, statuses, report, parted⟩ := nxmtRunnerRunPass_stop env b
    (some (nxmtArenaFromRange 0x1000 0x1000)) (some ⟨.quick, 1, 0, 0, 1, false, true, false⟩)
    (some zeroReport) (some ⟨0, 0, 0, .fixedA⟩) (fun a ha => by cases ha; decide)
  have stopped : ∃ e ∈ t, stopSeen e = true := by decide +kernel
  have quiet : ∀ e ∈ trace env.unstopped.serve pass b, stopSeen e = false := by decide +kernel
  refine ⟨(statuses supported).2.1.2 ⟨stopped, by decide +kernel⟩, report, parted.resolve_left ?_⟩
  intro same
  obtain ⟨e, he, stop⟩ := stopped
  rw [quiet e (same ▸ he)] at stop
  cases stop

end NxMemTest
