import NxMemTest.PassesCompleted
import NxMemTest.Percent

/-! `Verified Arena`. The bytes verified by all workers in all phases and passes are
shown as a part of the full arena, so a word verified again counts again. -/

namespace NxMemTest
open Interaction Program

/-- The figure that `draw_results_section` shows for the full arena. -/
def verifiedArena (arena : NxmtArena) (out : MainResult) : Word :=
  let verifiedForProgress := out.state.totals.totalStats.bytesVerified
  nxmtPercentMilli (if verifiedForProgress > arena.size then arena.size else verifiedForProgress)
    arena.size

def testedWords (arena : NxmtArena) (t : List (Event MainCall.Answer)) : Finset Nat :=
  (Finset.range arena.words.toNat).filter fun w =>
    ∃ f ∈ finished t, w ∈ (verifiedWords f.run.events).map Prod.snd

def VerifiedArenaSound (arena : NxmtArena) (out : MainResult) (t : List (Event MainCall.Answer)) :
    Prop :=
  (verifiedArena arena out).toNat ≤ 100000 * (8 * (testedWords arena t).card) / arena.size.toNat

/-- No word is in two verify halves that ran to their ends. -/
def CountedOnce (t : List (Event MainCall.Answer)) : Prop :=
  (((finished t).flatMap FinishedWorker.counted).map Prod.snd).Nodup

theorem verifiedArena_le {arena : NxmtArena} {out : MainResult} {n : Nat}
    (le : min out.state.totals.totalStats.bytesVerified.toNat arena.size.toNat ≤ n) :
    (verifiedArena arena out).toNat ≤ 100000 * n / arena.size.toNat := by
  have shown : (if out.state.totals.totalStats.bytesVerified > arena.size then arena.size
      else out.state.totals.totalStats.bytesVerified).toNat =
      min out.state.totals.totalStats.bytesVerified.toNat arena.size.toNat := by
    split
    · rename_i large
      rw [Nat.min_eq_right (BitVec.lt_def.1 large).le]
    · rename_i small
      rw [Nat.min_eq_left (BitVec.le_def.1 (BitVec.not_lt.1 small))]
  rw [verifiedArena, nxmtPercentMilli_toNat, shown, Nat.mul_comm 100000]
  exact (Nat.min_le_left _ _).trans (Nat.div_le_div_right (Nat.mul_le_mul_right _ le))

/-- If all words were tested, or none of them was counted twice, the figure is sound. -/
theorem mainRun_verified_arena (base size : Word) (mode : NxmtMode) (seed durationMs : Word)
    (workers : BitVec 32) (report : NxmtReport) (fuel : Nat) (t : List (Event MainCall.Answer))
    (out : MainResult) (hbase : (nxmtArenaFromRange base size).base ≠ 0)
    (hwords : (nxmtArenaFromRange base size).words ≠ 0) (hworkers : workers ≠ 0)
    (path : Path (mainRun mode seed durationMs (nxmtArenaFromRange base size) workers report fuel) t
      (some out))
    (honest : (∀ w < (nxmtArenaFromRange base size).words.toNat,
      w ∈ testedWords (nxmtArenaFromRange base size) t) ∨ CountedOnce t) :
    VerifiedArenaSound (nxmtArenaFromRange base size) out t := by
  have wf := nxmtArenaFromRange_wellFormed hwords
  rcases honest with all | once
  · -- everything is tested, and more than everything is never shown
    refine verifiedArena_le (le_trans (Nat.min_le_right _ _) ?_)
    have whole : testedWords (nxmtArenaFromRange base size) t =
        Finset.range (nxmtArenaFromRange base size).words.toNat :=
      (Finset.filter_subset _ _).antisymm fun w hw => all w (Finset.mem_range.1 hw)
    have words := wf.words_size
    rw [whole, Finset.card_range]
    omega
  · obtain ⟨front, loop, back, st, -, parts⟩ :=
      path_mainRun_stretches hbase wf hwords hworkers path
    have ran := path_mainRun hbase wf hwords hworkers path
    obtain ⟨-, shared⟩ := path_mainRun_counted hbase wf hwords hworkers path
    have worker : ∀ f ∈ finished t, ∃ e ∈ t, f ∈ finishedWorkers e ∧ SharedOut out.config e := by
      intro f hf
      obtain ⟨e, he, hf⟩ := List.mem_flatMap.1 hf
      exact ⟨e, he, hf, shared e he⟩
    have bytes : out.state.totals.totalStats.bytesVerified =
        BitVec.ofNat 64 (8 * ((finished t).flatMap FinishedWorker.counted).length) := by
      rw [ran.ran.totals, mergeAll_bytesVerified _ _ ran.accepts]
      exact BitVec.zero_add _
    have tested : ∀ w ∈ ((finished t).flatMap FinishedWorker.counted).map Prod.snd,
        w ∈ testedWords (nxmtArenaFromRange base size) t := by
      intro w hw
      obtain ⟨⟨phase, w⟩, counted, rfl⟩ := List.mem_map.1 hw
      obtain ⟨f, hf, counted⟩ := List.mem_flatMap.1 counted
      obtain ⟨e, -, hf', shared⟩ := worker f hf
      have mem : (phase, w) ∈ verifiedWords f.run.events := List.mem_of_mem_take counted
      obtain ⟨-, -, W, i, hi, start, count⟩ := shared.worker ran.fit hf'
      obtain ⟨low, high⟩ := shared.owns ran.fit hf' mem
      have inside := Partition.end_le (n := out.config.cpuArena.words.toNat) hi
      have words := parts.words_le
      dsimp only
      refine Finset.mem_filter.2 ⟨Finset.mem_range.2 (by omega), f, hf, ?_⟩
      exact List.mem_map.2 ⟨(phase, w), mem, rfl⟩
    refine verifiedArena_le (le_trans (Nat.min_le_left _ _) ?_)
    have card := Finset.card_le_card fun w hw => tested w (List.mem_toFinset.1 hw)
    rw [List.toFinset_card_of_nodup once, List.length_map] at card
    rw [bytes, BitVec.toNat_ofNat]
    exact (Nat.mod_le _ _).trans (Nat.mul_le_mul_left 8 card)

theorem mainRun_verified_arena_quick : ∃ out, Path quickRun (trace quickRunServe quickRun 0)
    (some out) ∧ VerifiedArenaSound (nxmtArenaFromRange 0x1000 0x1000) out
      (trace quickRunServe quickRun 0) := by
  obtain ⟨out, path, -, arena⟩ := quickRun_ends
  have hwords : (nxmtArenaFromRange 0x1000 0x1000).words ≠ 0 := by decide
  have wf := nxmtArenaFromRange_wellFormed hwords
  have fit := (path_mainRun (by decide) wf hwords (by decide) path).fit
  obtain ⟨-, shared⟩ := path_mainRun_counted (by decide) wf hwords (by decide) path
  have alone : ∃ e ∈ passes (trace quickRunServe quickRun 0), ∃ f ∈ finishedWorkers e,
      f.start = 0 ∧ f.count = (nxmtArenaFromRange 0x1000 0x1000).words.toNat ∧ f.stop = false := by
    decide +kernel
  obtain ⟨e, he, whole⟩ := alone
  have he' := (List.mem_filter.1 he).1
  have verified := (passVerified_iff fit (shared e he')).2 (undisturbed_alone (arena ▸ whole))
  refine ⟨out, path, mainRun_verified_arena 0x1000 0x1000 .quick 1 0 1 zeroReport 2 _ out
    (by decide) hwords (by decide) path (.inl fun w hw => ?_)⟩
  obtain ⟨f, hf, mem⟩ := verified .address (by cases out.config.mode <;> decide) w (arena ▸ hw)
  refine Finset.mem_filter.2 ⟨Finset.mem_range.2 hw, f, List.mem_flatMap.2 ⟨e, he', hf⟩, ?_⟩
  exact List.mem_map.2 ⟨_, mem, rfl⟩

def steadyRun (ctx : NxmtWorkerContext) (stop : Bool) : WorkerRun ctx stop where
  events := trace (calmServe false) (nxmtWorkerEntry ctx) ()
  result := (exec (calmServe false) (nxmtWorkerEntry ctx) ()).1
  path := path_trace _ _ _
  quiet := fun _ => calmServe_quiet _

/-- Two workers: the first is through all its phases when the three minutes are over, the
second has not begun. -/
def oneOfTwo : Main (Option MainResult) := mainRun .memoryLoad 1 180000 menuArena 2 zeroReport 2

def oneOfTwoServe : (e : MainCall) → Nat → MainCall.Answer e × Nat
  | .runWorkers _ contexts stop, k =>
    (fun worker => if worker.val = 0 then steadyRun (contexts worker) stop
      else calmRun (contexts worker) stop, k)
  | e, k => scripted (fun k => if k < 2 then 0 else 180000) 0 e k

/-- Half of the arena is tested, and all of it is shown. -/
theorem mainRun_verified_arena_overstated :
    ∃ out, Path oneOfTwo (trace oneOfTwoServe oneOfTwo 0) (some out) ∧
      out.state.totals.totalStats.bytesVerified = 0x40000000 ∧
      verifiedArena menuArena out = 100000 ∧
      ¬ VerifiedArenaSound menuArena out (trace oneOfTwoServe oneOfTwo 0) := by
  have ends : ((exec oneOfTwoServe oneOfTwo 0).1.map fun out =>
      (out.state.totals.totalStats.bytesVerified, verifiedArena menuArena out)) =
        some (0x40000000, 100000) := by
    decide +kernel
  obtain ⟨out, path, figures⟩ := path_of_exec_map _ ends
  simp only [Prod.mk.injEq] at figures
  refine ⟨out, path, figures.1, figures.2, fun sound => ?_⟩
  have hwords : menuArena.words ≠ 0 := by decide
  have wf := nxmtArenaFromRange_wellFormed hwords
  have fit := (path_mainRun (by decide) wf hwords (by decide) path).fit
  obtain ⟨-, shared⟩ := path_mainRun_counted (by decide) wf hwords (by decide) path
  -- the second worker is cut at once, and the first one keeps to its half
  have halves : ∀ f ∈ finished (trace oneOfTwoServe oneOfTwo 0),
      f.start + f.count ≤ 16777216 ∨ verifiedWords f.run.events = [] := by
    decide +kernel
  have few : testedWords menuArena (trace oneOfTwoServe oneOfTwo 0) ⊆ Finset.range 16777216 := by
    intro w hw
    obtain ⟨-, f, hf, hw⟩ := Finset.mem_filter.1 hw
    obtain ⟨⟨phase, w⟩, mem, rfl⟩ := List.mem_map.1 hw
    obtain ⟨e, he, hf'⟩ := List.mem_flatMap.1 hf
    obtain ⟨-, high⟩ := (shared e he).owns fit hf' mem
    rcases halves f hf with half | none
    · exact Finset.mem_range.2 (by omega)
    · rw [none] at mem
      exact absurd mem List.not_mem_nil
  have card := Finset.card_le_card few
  rw [Finset.card_range] at card
  have size : menuArena.size.toNat = 268435456 := by decide
  have shown : (100000 : Word).toNat = 100000 := rfl
  rw [VerifiedArenaSound, figures.2, shown, size] at sound
  omega

end NxMemTest
