import NxMemTest.PassesCompleted
import NxMemTest.Percent

/-! `System Stress Pass`. The workers that get to an end are added up over the passes
and the fallback, and shown as a part of the workers of one pass. -/

namespace NxMemTest
open Interaction Program

/-- The figure that `draw_results_section` shows. -/
def systemStressPass (out : MainResult) : Word :=
  nxmtPercentMilli (out.state.totals.completedWorkers.setWidth 64) (out.config.workers.setWidth 64)

def FullPass (c : MainConfig) (e : Event MainCall.Answer) : Prop :=
  PassVerified c e ∧ ∀ f ∈ finishedWorkers e, f.run.result.status = .pass

def StressPassSound (out : MainResult) (t : List (Event MainCall.Answer)) : Prop :=
  out.state.totals.completedWorkers ≤ out.config.workers ∧
    (systemStressPass out).toNat ≤ 100000 ∧
    ((∃ e ∈ passes t, FullPass out.config e) → systemStressPass out = 100000)

/-- At most one pass has a worker that is neither aborted nor refused, and a full pass
is one of all the workers. -/
def OnePass (c : MainConfig) (t : List (Event MainCall.Answer)) : Prop :=
  (passes t).countP (fun e => (finishedWorkers e).any FinishedWorker.completes) ≤ 1 ∧
    ∀ e ∈ passes t, FullPass c e → (finishedWorkers e).length = c.workers.toNat

theorem SharedOut.length_le {c : MainConfig} (fit : c.Fit) {e : Event MainCall.Answer}
    (shared : SharedOut c e) : (finishedWorkers e).length ≤ c.workers.toNat := by
  obtain ⟨call, runs⟩ := e
  cases call with
  | runWorkers started contexts stop =>
    obtain ⟨workers, pass, progressBytes, -, few, -, all | one⟩ := shared
    · simpa [finishedWorkers, ← all] using few
    · have some_worker : c.workers.toNat ≠ 0 := fun zero => fit.workers (BitVec.eq_of_toNat_eq zero)
      have value : (1 : BitVec 32).toNat = 1 := rfl
      rw [one, value] at few
      simp only [finishedWorkers, List.length_map, List.length_finRange]
      omega
  | _ => exact Nat.zero_le _

theorem sum_of_countP_le_one {α : Type} {l : List α} {p : α → Bool} {g : α → Nat}
    (one : l.countP p ≤ 1) (none : ∀ a ∈ l, p a = false → g a = 0) {a : α} (ha : a ∈ l)
    (pa : p a = true) : (l.map g).sum = g a := by
  induction l with
  | nil => exact absurd ha List.not_mem_nil
  | cons b l ih =>
    rw [List.map_cons, List.sum_cons]
    have later : ∀ a ∈ l, p a = false → g a = 0 := fun a ha => none a (List.mem_cons_of_mem _ ha)
    cases pb : p b with
    | true =>
      rw [List.countP_cons_of_pos pb] at one
      have rest : ∀ a ∈ l, p a = false := fun a ha =>
        Bool.eq_false_of_not_eq_true (List.countP_eq_zero.1 (by omega) a ha)
      have zero : (l.map g).sum = 0 := List.sum_eq_zero
        (List.forall_mem_map.2 fun a ha => later a ha (rest a ha))
      rcases List.mem_cons.1 ha with rfl | ha
      · rw [zero, Nat.add_zero]
      · rw [rest a ha] at pa
        cases pa
    | false =>
      rw [List.countP_cons_of_neg (by simp [pb])] at one
      have ha' : a ∈ l := by
        rcases List.mem_cons.1 ha with rfl | ha
        · rw [pa] at pb
          cases pb
        · exact ha
      rw [none b List.mem_cons_self pb, Nat.zero_add]
      exact ih one later ha'

theorem sum_le_of_countP_le_one {α : Type} {l : List α} {p : α → Bool} {g : α → Nat} {k : Nat}
    (one : l.countP p ≤ 1) (none : ∀ a ∈ l, p a = false → g a = 0) (le : ∀ a ∈ l, g a ≤ k) :
    (l.map g).sum ≤ k := by
  by_cases some_term : ∃ a ∈ l, p a = true
  · obtain ⟨a, ha, pa⟩ := some_term
    rw [sum_of_countP_le_one one none ha pa]
    exact le a ha
  · have zero : (l.map g).sum = 0 := List.sum_eq_zero (List.forall_mem_map.2 fun a ha =>
      none a ha (Bool.eq_false_of_not_eq_true fun pa => some_term ⟨a, ha, pa⟩))
    omega

/-- If the workers of one pass only are counted, the figure is a part of a whole. -/
theorem mainRun_stress_pass (base size : Word) (mode : NxmtMode) (seed durationMs : Word)
    (workers : BitVec 32) (report : NxmtReport) (fuel : Nat) (t : List (Event MainCall.Answer))
    (out : MainResult) (hbase : (nxmtArenaFromRange base size).base ≠ 0)
    (hwords : (nxmtArenaFromRange base size).words ≠ 0) (hworkers : workers ≠ 0)
    (path : Path (mainRun mode seed durationMs (nxmtArenaFromRange base size) workers report fuel) t
      (some out)) (one : OnePass out.config t) : StressPassSound out t := by
  have wf := nxmtArenaFromRange_wellFormed hwords
  have ran := path_mainRun hbase wf hwords hworkers path
  obtain ⟨-, shared⟩ := path_mainRun_counted hbase wf hwords hworkers path
  have fit := ran.fit
  let completing (e : Event MainCall.Answer) := (finishedWorkers e).countP FinishedWorker.completes
  have total : out.state.totals.completedWorkers =
      BitVec.ofNat 32 ((passes t).map completing).sum := by
    rw [ran.ran.totals, mergeAll_completedWorkers, finished_passes, List.countP_flatMap]
    exact BitVec.zero_add _
  have none : ∀ e ∈ passes t, (finishedWorkers e).any FinishedWorker.completes = false →
      completing e = 0 := by
    intro e _ idle
    refine List.countP_eq_zero.2 fun f hf completes => ?_
    rw [List.any_eq_true.2 ⟨f, hf, completes⟩] at idle
    cases idle
  have few : ∀ e ∈ passes t, completing e ≤ out.config.workers.toNat := fun e he =>
    List.countP_le_length.trans ((shared e (List.mem_filter.1 he).1).length_le fit)
  have le := sum_le_of_countP_le_one one.1 none few
  have top := out.config.workers.isLt
  have value : out.state.totals.completedWorkers.toNat = ((passes t).map completing).sum := by
    rw [total, BitVec.toNat_ofNat, Nat.mod_eq_of_lt (by omega)]
  have pos : 0 < out.config.workers.toNat := by
    rw [Nat.pos_iff_ne_zero]
    exact fun zero => fit.workers (BitVec.eq_of_toNat_eq zero)
  have shown : (systemStressPass out).toNat = min
      (((passes t).map completing).sum * 100000 / out.config.workers.toNat) (2 ^ 64 - 1) := by
    have wide : ∀ x : BitVec 32, (x.setWidth 64).toNat = x.toNat := by
      intro x
      rw [BitVec.toNat_setWidth]
      have := x.isLt
      omega
    rw [systemStressPass, nxmtPercentMilli_toNat, wide, wide, value]
  refine ⟨?_, ?_, ?_⟩
  · rw [BitVec.le_def, value]
    exact le
  · have part : ((passes t).map completing).sum * 100000 / out.config.workers.toNat ≤ 100000 := by
      refine Nat.div_le_of_le_mul ?_
      exact Nat.mul_le_mul_right 100000 le
    omega
  · rintro ⟨e, he, full⟩
    have passed : ∀ f ∈ finishedWorkers e, f.completes = true := by
      intro f hf
      simp [FinishedWorker.completes, full.2 f hf]
    have length := one.2 e he full
    have all : completing e = out.config.workers.toNat := by
      rw [← length]
      exact List.countP_eq_length.2 passed
    have some_worker : (finishedWorkers e).any FinishedWorker.completes = true := by
      obtain ⟨f, hf⟩ := List.exists_mem_of_length_pos (length ▸ pos)
      exact List.any_eq_true.2 ⟨f, hf, passed f hf⟩
    rw [sum_of_countP_le_one one.1 none he some_worker, all, Nat.mul_div_cancel_left _ pos] at shown
    refine BitVec.eq_of_toNat_eq (shown.trans ?_)
    rfl

theorem mainRun_stress_pass_quick : ∃ out, Path quickRun (trace quickRunServe quickRun 0)
    (some out) ∧ StressPassSound out (trace quickRunServe quickRun 0) := by
  have ends : ((exec quickRunServe quickRun 0).1.map fun out => out.config.workers) = some 1 := by
    decide +kernel
  obtain ⟨out, path, workers⟩ := path_of_exec_map _ ends
  have one : (passes (trace quickRunServe quickRun 0)).length = 1 := by decide +kernel
  have each : ∀ e ∈ passes (trace quickRunServe quickRun 0), (finishedWorkers e).length = 1 := by
    decide +kernel
  refine ⟨out, path, ?_⟩
  refine mainRun_stress_pass 0x1000 0x1000 .quick 1 0 1 zeroReport 2 _ out (by decide) (by decide)
    (by decide) path ⟨one ▸ List.countP_le_length, fun e he _ => ?_⟩
  rw [each e he, workers]
  rfl

/-- One worker, and three minutes that are over after two passes. -/
def twoPasses : Main (Option MainResult) := mainRun .memoryLoad 1 180000 menuArena 1 zeroReport 4

def twoPassesServe : (e : MainCall) → Nat → MainCall.Answer e × Nat :=
  scripted (fun k => if k < 3 then 0 else 180000) 1

def noThreads : Main (Option MainResult) := mainRun .quick 1 0 menuArena 2 zeroReport 2

def noThreadsServe : (e : MainCall) → Nat → MainCall.Answer e × Nat
  | .threadCreate _, k => (false, k)
  | e, k => scripted (fun _ => 0) 0 e k

/-- Two passes count their worker twice, and the fallback over the whole arena is half
of two workers. -/
theorem mainRun_stress_pass_overcounted :
    (∃ out, Path twoPasses (trace twoPassesServe twoPasses 0) (some out) ∧
      out.config.workers = 1 ∧ out.state.totals.completedWorkers = 2 ∧
      systemStressPass out = 200000) ∧
    ∃ out, Path noThreads (trace noThreadsServe noThreads 0) (some out) ∧
      (∃ e ∈ passes (trace noThreadsServe noThreads 0), FullPass out.config e) ∧
      systemStressPass out = 50000 := by
  have twice : ((exec twoPassesServe twoPasses 0).1.map fun out => (out.config.workers,
      out.state.totals.completedWorkers)) = some (1, 2) := by
    decide +kernel
  have half : ((exec noThreadsServe noThreads 0).1.map fun out => (out.config.workers,
      out.state.totals.completedWorkers, out.config.cpuArena)) = some (2, 1, menuArena) := by
    decide +kernel
  obtain ⟨out, path, figures⟩ := path_of_exec_map _ twice
  obtain ⟨out', path', figures'⟩ := path_of_exec_map _ half
  simp only [Prod.mk.injEq] at figures figures'
  obtain ⟨two, one, arena⟩ := figures'
  refine ⟨⟨out, path, figures.1, figures.2, ?_⟩, out', path', ?_, ?_⟩
  · rw [systemStressPass, figures.1, figures.2]
    decide +kernel
  rotate_left
  · rw [systemStressPass, two, one]
    decide +kernel
  -- the fallback has tested every word, and its worker passes
  have alone : ∃ e ∈ passes (trace noThreadsServe noThreads 0),
      (∃ f ∈ finishedWorkers e, f.start = 0 ∧
        f.count = menuArena.words.toNat ∧ f.stop = false) ∧
      ∀ f ∈ finishedWorkers e, f.run.result.status = .pass := by
    decide +kernel
  obtain ⟨e, he, whole, pass⟩ := alone
  have hwords : menuArena.words ≠ 0 := by decide
  have wf := nxmtArenaFromRange_wellFormed hwords
  have fit := (path_mainRun (by decide) wf hwords (by decide) path').fit
  obtain ⟨-, shared⟩ := path_mainRun_counted (by decide) wf hwords (by decide) path'
  refine ⟨e, he, (passVerified_iff fit (shared e (List.mem_filter.1 he).1)).2 ?_, pass⟩
  exact undisturbed_alone (arena ▸ whole)

end NxMemTest
