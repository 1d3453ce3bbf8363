import NxMemTest.Passes
import NxMemTest.Coverage
import Mathlib.Algebra.BigOperators.Ring.List

/-! `Passes Completed`. The counter goes up after the join whatever the workers got
to, so it counts completed passes only as long as nobody stops a worker and every
thread that has words to test was started. -/

namespace NxMemTest
open Interaction Program

def PassVerified (c : MainConfig) (e : Event MainCall.Answer) : Prop :=
  ∀ phase ∈ nxmtPhasesForMode c.mode, ∀ w < c.cpuArena.words.toNat,
    ∃ f ∈ finishedWorkers e, (phase, w) ∈ verifiedWords f.run.events

instance (c : MainConfig) : DecidablePred (PassVerified c) := fun e =>
  inferInstanceAs (Decidable (∀ phase ∈ nxmtPhasesForMode c.mode, ∀ w < c.cpuArena.words.toNat,
    ∃ f ∈ finishedWorkers e, (phase, w) ∈ verifiedWords f.run.events))

/-- Every word was some started worker's to test, and no poll of that worker was
answered true. -/
def Undisturbed (c : MainConfig) (e : Event MainCall.Answer) : Prop :=
  ∀ w < c.cpuArena.words.toNat, ∃ f ∈ finishedWorkers e, f.Owns w ∧ Quiet f.run.events

section
variable {c : MainConfig} (fit : c.Fit) {e : Event MainCall.Answer} (shared : SharedOut c e)
include fit shared

theorem passVerified_iff : PassVerified c e ↔ Undisturbed c e := by
  have some_phase : nxmtPhasesForMode c.mode ≠ [] := by
    cases c.mode <;> decide
  obtain ⟨last, hlast⟩ := Option.ne_none_iff_exists'.1 (mt List.getLast?_eq_none_iff.1 some_phase)
  have listed := List.mem_of_getLast? hlast
  constructor
  · intro verified w hw
    obtain ⟨f, hf, mem⟩ := verified last listed w hw
    obtain ⟨ok, phases, W, i, hi, start, count⟩ := shared.worker fit hf
    have own := shared.owns fit hf mem
    have pos : 0 < f.count := by
      obtain ⟨low, high⟩ := own
      omega
    -- the last word of the slice in the last phase is verified by the same worker
    have inside : f.start + (f.count - 1) < c.cpuArena.words.toNat := by
      have fits := Partition.end_le (n := c.cpuArena.words.toNat) hi
      omega
    obtain ⟨g, hg, mem'⟩ := verified last listed _ inside
    have same : f = g := shared.owner_unique hf hg (w := f.start + (f.count - 1))
      ⟨by omega, by omega⟩ (shared.owns fit hg mem')
    subst same
    refine ⟨f, hf, own, (FinishedWorker.quiet_iff ok pos).2 ?_⟩
    refine prefix_of_last (phaseWords_nodup ?_ _ _) (FinishedWorker.verified_initial ok) ?_ mem'
    · rw [phases]
      exact nxmtPhasesForMode_nodup c.mode
    · rw [phases]
      exact phaseWords_getLast hlast f.start pos.ne'
  · intro quiet phase hphase w hw
    obtain ⟨f, hf, own, still⟩ := quiet w hw
    obtain ⟨ok, phases, -⟩ := shared.worker fit hf
    have pos : 0 < f.count := by
      obtain ⟨low, high⟩ := own
      omega
    refine ⟨f, hf, ?_⟩
    rw [(FinishedWorker.quiet_iff ok pos).1 still, phases]
    exact mem_phaseWords.2 ⟨hphase, own⟩

theorem Undisturbed.counted_length (h : Undisturbed c e) :
    ((finishedWorkers e).flatMap FinishedWorker.counted).length =
      (nxmtPhasesForMode c.mode).length * c.cpuArena.words.toNat := by
  have counted : ∀ f ∈ finishedWorkers e,
      f.counted.length = (nxmtPhasesForMode c.mode).length * f.count := by
    intro f hf
    obtain ⟨ok, phases, W, i, hi, start, count⟩ := shared.worker fit hf
    rcases Nat.eq_zero_or_pos f.count with none | pos
    · rw [FinishedWorker.counted, none, Nat.zero_mul, List.take_zero, Nat.mul_zero]
      rfl
    · have inside : f.start < c.cpuArena.words.toNat := by
        have fits := Partition.end_le (n := c.cpuArena.words.toNat) hi
        omega
      obtain ⟨g, hg, own, quiet⟩ := h f.start inside
      have same : f = g := shared.owner_unique hf hg ⟨le_rfl, by omega⟩ own
      subst same
      rw [FinishedWorker.counted_length_quiet ok quiet, phases]
  obtain ⟨W, started, le, slices⟩ := shared.slices
  -- the started workers have all the words: the next one would be nobody's
  have reach : Partition.start c.cpuArena.words.toNat W started = c.cpuArena.words.toNat := by
    refine Nat.le_antisymm ?_ (Nat.le_of_not_lt fun lt => ?_)
    · rcases Nat.eq_zero_or_pos W with rfl | pos
      · rw [Nat.le_zero.1 le, Partition.start_zero]
        exact Nat.zero_le _
      · exact Partition.start_le le pos
    · obtain ⟨f, hf, ⟨low, high⟩, -⟩ := h _ lt
      have mem : (f.start, f.count) ∈ (finishedWorkers e).map fun f => (f.start, f.count) :=
        List.mem_map.2 ⟨f, hf, rfl⟩
      rw [slices] at mem
      obtain ⟨i, hi, same⟩ := List.mem_map.1 mem
      obtain ⟨start, count⟩ := Prod.mk.inj same
      rw [← start, ← count, Partition.start_succ] at high
      exact absurd high (Nat.not_lt.2 (Partition.start_mono _ _ (List.mem_range.1 hi)))
  have sizes := congrArg (fun l => (l.map Prod.snd).sum) slices
  simp only [List.map_map] at sizes
  have total : ((finishedWorkers e).map FinishedWorker.count).sum = c.cpuArena.words.toNat := by
    rw [← reach, ← Partition.sum_size]
    exact sizes
  rw [List.length_flatMap, List.map_congr_left counted, List.sum_map_mul_left, total]

end

/-- `Passes Completed` is the number of passes that verified the whole arena, or less,
and so many arenas were verified in every phase. -/
def PassesCompletedSound (out : MainResult) (t : List (Event MainCall.Answer)) : Prop :=
  let phaseBytes := nxmtRunnerPhaseCount out.config.mode * out.config.cpuArena.size.toNat
  out.state.passesCompleted.toNat ≤ (passes t).countP (fun e => PassVerified out.config e) ∧
    (out.state.passesCompleted.toNat * phaseBytes < 2 ^ 64 →
      out.state.passesCompleted.toNat * phaseBytes ≤
        out.state.totals.totalStats.bytesVerified.toNat)

/-- The counter is right if no pass was disturbed, and only then. -/
theorem mainRun_passes_completed (base size : Word) (mode : NxmtMode) (seed durationMs : Word)
    (workers : BitVec 32) (report : NxmtReport) (fuel : Nat) (t : List (Event MainCall.Answer))
    (out : MainResult) (hbase : (nxmtArenaFromRange base size).base ≠ 0)
    (hwords : (nxmtArenaFromRange base size).words ≠ 0) (hworkers : workers ≠ 0)
    (path : Path (mainRun mode seed durationMs (nxmtArenaFromRange base size) workers report fuel) t
      (some out)) :
    ((∀ e ∈ passes t, Undisturbed out.config e) → PassesCompletedSound out t) ∧
      ((passes t).length < 2 ^ 64 → PassesCompletedSound out t →
        ∀ e ∈ passes t, Undisturbed out.config e) := by
  have wf := nxmtArenaFromRange_wellFormed hwords
  have ran := path_mainRun hbase wf hwords hworkers path
  obtain ⟨completed, shared⟩ := path_mainRun_counted hbase wf hwords hworkers path
  have fit := ran.fit
  have shared' : ∀ e ∈ passes t, SharedOut out.config e := fun e he =>
    shared e (List.mem_filter.1 he).1
  have le : out.state.passesCompleted.toNat ≤ (passes t).length := by
    rw [completed, BitVec.toNat_ofNat]
    exact Nat.mod_le _ _
  refine ⟨fun quiet => ⟨?_, fun fits => ?_⟩, fun few sound e he => ?_⟩
  · have all : (passes t).countP (fun e => PassVerified out.config e) = (passes t).length :=
      List.countP_eq_length.2 fun e he =>
        decide_eq_true ((passVerified_iff fit (shared' e he)).2 (quiet e he))
    rw [all]
    exact le
  · have each : ∀ e ∈ passes t, ((finishedWorkers e).flatMap FinishedWorker.counted).length =
        (nxmtPhasesForMode out.config.mode).length * out.config.cpuArena.words.toNat := fun e he =>
      (quiet e he).counted_length fit (shared' e he)
    have counted : ((finished t).flatMap FinishedWorker.counted).length = (passes t).length *
        ((nxmtPhasesForMode out.config.mode).length * out.config.cpuArena.words.toNat) := by
      rw [finished_passes, List.flatMap_assoc, List.length_flatMap, List.map_congr_left each,
        List.map_const', List.sum_replicate, smul_eq_mul]
    have bytes := mergeAll_bytesVerified (finished t) (initTotals report) ran.accepts
    have words := fit.wellFormed.words_size
    let phaseBytes := nxmtRunnerPhaseCount out.config.mode * out.config.cpuArena.size.toNat
    have same : 8 * ((passes t).length * ((nxmtPhasesForMode out.config.mode).length *
        out.config.cpuArena.words.toNat)) = (passes t).length * phaseBytes := by
      simp only [phaseBytes, nxmtRunnerPhaseCount, ← words]
      ring
    have total : out.state.totals.totalStats.bytesVerified =
        BitVec.ofNat 64 (out.state.passesCompleted.toNat * phaseBytes) := by
      have split : ∀ n, BitVec.ofNat 64 (n * phaseBytes) =
          BitVec.ofNat 64 n * BitVec.ofNat 64 phaseBytes := fun n => BitVec.ofNat_mul ..
      rw [ran.ran.totals, bytes, counted, same, split, split, ← completed, BitVec.ofNat_toNat,
        BitVec.setWidth_eq]
      exact BitVec.zero_add _
    rw [total, BitVec.toNat_ofNat, Nat.mod_eq_of_lt fits]
  · have count := sound.1
    rw [completed, BitVec.toNat_ofNat, Nat.mod_eq_of_lt few] at count
    have all := List.countP_eq_length.1 (List.countP_le_length.antisymm count) e he
    exact (passVerified_iff fit (shared' e he)).1 (of_decide_eq_true all)

theorem undisturbed_alone {c : MainConfig} {e : Event MainCall.Answer}
    (h : ∃ f ∈ finishedWorkers e, f.start = 0 ∧ f.count = c.cpuArena.words.toNat ∧ f.stop = false) :
    Undisturbed c e := by
  obtain ⟨f, hf, start, count, down⟩ := h
  exact fun w hw => ⟨f, hf, ⟨by omega, by omega⟩, f.run.quiet down⟩

theorem mainRun_passes_completed_quick : ∃ out, Path quickRun (trace quickRunServe quickRun 0)
    (some out) ∧ PassesCompletedSound out (trace quickRunServe quickRun 0) := by
  obtain ⟨out, path, -, arena⟩ := quickRun_ends
  obtain ⟨sound, -⟩ := mainRun_passes_completed 0x1000 0x1000 .quick 1 0 1 zeroReport 2 _ out
    (by decide) (by decide) (by decide) path
  have alone : ∀ e ∈ passes (trace quickRunServe quickRun 0), ∃ f ∈ finishedWorkers e,
      f.start = 0 ∧ f.count = (nxmtArenaFromRange 0x1000 0x1000).words.toNat ∧ f.stop = false := by
    decide +kernel
  exact ⟨out, path, sound fun e he => undisturbed_alone (arena ▸ alone e he)⟩

/-- The run that times out counts the pass it cut before anything was tested. -/
theorem mainRun_passes_completed_cut : ∃ out, Path timedOut (trace timedOutServe timedOut 0)
    (some out) ∧ out.state.passesCompleted = 1 ∧ out.state.totals.totalStats.bytesVerified = 0 ∧
      ¬ PassesCompletedSound out (trace timedOutServe timedOut 0) := by
  have ends : ((exec timedOutServe timedOut 0).1.map fun out => (out.state.passesCompleted,
      out.state.totals.totalStats.bytesVerified, out.config.cpuArena, out.config.mode)) =
      some (1, 0, menuArena, .memoryLoad) := by
    decide +kernel
  obtain ⟨out, path, values⟩ := path_of_exec_map _ ends
  obtain ⟨completed, bytes, arena, mode⟩ := by simpa only [Prod.mk.injEq] using values
  refine ⟨out, path, completed, bytes, fun sound => ?_⟩
  have idle : ∀ e ∈ passes (trace timedOutServe timedOut 0), ∀ f ∈ finishedWorkers e,
      verifiedWords f.run.events = [] := by
    decide +kernel
  have none : (passes (trace timedOutServe timedOut 0)).countP
      (fun e => PassVerified out.config e) = 0 := by
    refine List.countP_eq_zero.2 fun e he verified => ?_
    obtain ⟨f, hf, mem⟩ := of_decide_eq_true verified .fixedA (by rw [mode]; decide) 0
      (by rw [arena]; decide)
    rw [idle e he f hf] at mem
    exact absurd mem List.not_mem_nil
  have count := sound.1
  rw [none, completed] at count
  exact absurd count (by decide)

end NxMemTest
