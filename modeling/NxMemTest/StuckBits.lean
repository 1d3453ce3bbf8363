import NxMemTest.Faults
import NxMemTest.Reference
import Mathlib.Order.Bounds.Basic

/-! Stuck bits. The two complementary phases `FIXED_A` and `FIXED_5` catch every
one of them, and what the report says of their places and offsets is exact. -/

namespace NxMemTest
open Interaction Program

/-- Whatever is stored in word `w`, its bits in `mask w` read back as in `value w`. -/
structure StuckBits where
  mask : Nat → Word
  value : Nat → Word

namespace StuckBits
variable (s : StuckBits)

def read (w : Nat) (v : Word) : Word := (v &&& ~~~s.mask w) ||| (s.value w &&& s.mask w)

/-- Memory that keeps what is stored and shows its stuck bits when it is read. -/
def device : Device Ram where
  load m p := (s.read p (m p), m)
  store m p v := Function.update m p v
  storeByte := Ram.storeByte

def faulty (start count : Nat) : Set Nat := {w | start ≤ w ∧ w < start + count ∧ s.mask w ≠ 0}

theorem device_stable (m : Ram) : s.device.Stable m := fun _ => rfl

theorem device_readsBack : s.device.ReadsBack s.read := by
  intro m q v
  funext p
  by_cases here : p = q
  · subst here
    simp [Device.view, device]
  · simp [Device.view, device, here]

variable {s}

theorem diff_read (w : Nat) (v : Word) :
    v ^^^ s.read w v = (v ^^^ s.value w) &&& s.mask w := by
  apply BitVec.eq_of_getLsbD_eq
  intro i hi
  simp only [read, BitVec.getLsbD_xor, BitVec.getLsbD_or, BitVec.getLsbD_and, BitVec.getLsbD_not,
    hi, decide_true, Bool.true_and]
  cases v.getLsbD i <;> cases s.mask w |>.getLsbD i <;> cases (s.value w).getLsbD i <;> rfl

theorem read_eq {w : Nat} (good : s.mask w = 0) (v : Word) : s.read w v = v := by
  have diff : v ^^^ s.read w v = _ := diff_read w v
  rw [good] at diff
  exact (BitVec.xor_eq_zero_iff.1 (diff.trans BitVec.and_zero)).symm

theorem exists_fixed {w i : Nat} (stuck : (s.mask w).getLsbD i = true) :
    ∃ phase ∈ memoryLoadPhases, ∀ seed pass : Word,
      let v := expectedWord seed phase pass w
      (v ^^^ s.read w v).getLsbD i = true := by
  have low : i < 64 := BitVec.lt_of_getLsbD stuck
  have complement : kFixed5 = ~~~kFixedA := by decide
  have flip : kFixed5.getLsbD i = !kFixedA.getLsbD i := by
    rw [complement, BitVec.getLsbD_not, decide_eq_true low, Bool.true_and]
  by_cases same : kFixedA.getLsbD i = (s.value w).getLsbD i
  · refine ⟨.fixed5, by decide, fun seed pass => ?_⟩
    dsimp only
    rw [diff_read, BitVec.getLsbD_and, stuck, BitVec.getLsbD_xor, expectedWord_fixed5, flip, same]
    cases (s.value w).getLsbD i <;> rfl
  · refine ⟨.fixedA, by decide, fun seed pass => ?_⟩
    dsimp only
    rw [diff_read, BitVec.getLsbD_and, stuck, BitVec.getLsbD_xor, expectedWord_fixedA,
      Bool.and_true, Bool.xor_iff_ne]
    exact same

section
variable {config : NxmtRunConfig} {start count : Nat}

theorem recorded_faulty {phases : List NxmtPhase} {c : RecordCall}
    (hc : c ∈ faultCalls (fun _ => s.read) config phases (List.range' start count)) :
    ∃ w ∈ s.faulty start count, c.offset = BitVec.ofNat 64 (8 * w) ∧
      ∀ i, c.diff.getLsbD i = true → (s.mask w).getLsbD i = true := by
  obtain ⟨phase, -, w, hw, wrong, rfl⟩ := mem_faultCalls.1 hc
  obtain ⟨low, high⟩ := List.mem_range'_1.1 hw
  refine ⟨w, ⟨low, high, fun good => wrong (read_eq good _)⟩, rfl, fun i blamed => ?_⟩
  rw [RecordCall.diff, errorCall, diff_read, BitVec.getLsbD_and, Bool.and_eq_true] at blamed
  exact blamed.2

variable (config) in
theorem stuck_recorded {w i : Nat} (low : start ≤ w) (high : w < start + count)
    (stuck : (s.mask w).getLsbD i = true) :
    ∃ c ∈ faultCalls (fun _ => s.read) config memoryLoadPhases (List.range' start count),
      c.offset = BitVec.ofNat 64 (8 * w) ∧ c.diff.getLsbD i = true := by
  obtain ⟨phase, hphase, blamed⟩ := exists_fixed stuck
  refine ⟨_, mem_faultCalls.2 ⟨phase, hphase, w, List.mem_range'_1.2 ⟨low, high⟩, ?_, rfl⟩, rfl,
    blamed config.seed config.pass⟩
  intro right
  have none := blamed config.seed config.pass
  dsimp only at none
  rw [right, BitVec.xor_self, BitVec.getLsbD_zero] at none
  exact absurd none (by decide)

variable (config) in
theorem faulty_recorded {w : Nat} (hw : w ∈ s.faulty start count) :
    ∃ c ∈ faultCalls (fun _ => s.read) config memoryLoadPhases (List.range' start count),
      c.offset = BitVec.ofNat 64 (8 * w) := by
  obtain ⟨low, high, some⟩ := hw
  have bit : ∃ i, (s.mask w).getLsbD i = true := by
    by_contra none
    simp only [not_exists, Bool.not_eq_true] at none
    exact some (BitWord.eq_zero_iff_getLsbD.2 none)
  obtain ⟨i, stuck⟩ := bit
  obtain ⟨c, hc, offset, -⟩ := stuck_recorded config low high stuck
  exact ⟨c, hc, offset⟩

theorem faultCalls_eq_nil :
    faultCalls (fun _ => s.read) config memoryLoadPhases (List.range' start count) = [] ↔
      ¬ (s.faulty start count).Nonempty := by
  constructor
  · rintro none ⟨w, hw⟩
    obtain ⟨c, hc, -⟩ := faulty_recorded config hw
    rw [none] at hc
    exact absurd hc List.not_mem_nil
  · intro none
    rw [List.eq_nil_iff_forall_not_mem]
    intro c hc
    obtain ⟨w, hw, -⟩ := recorded_faulty hc
    exact none ⟨w, hw⟩

section
variable {r : NxmtReport}
  (h : Denotes r (faultCalls (fun _ => s.read) config memoryLoadPhases (List.range' start count)))
include h

theorem bitDiffOr_eq :
    r.bitDiffOr = ((List.range' start count).map s.mask).foldr (· ||| ·) 0 := by
  rw [h.diffs]
  apply BitVec.eq_of_getLsbD_eq
  intro i _
  rw [Bool.eq_iff_iff, BitWord.getLsbD_foldr_or, BitWord.getLsbD_foldr_or]
  simp only [List.mem_map, exists_exists_and_eq_and]
  constructor
  · rintro ⟨c, hc, blamed⟩
    obtain ⟨w, ⟨low, high, -⟩, -, only⟩ := recorded_faulty hc
    exact ⟨w, List.mem_range'_1.2 ⟨low, high⟩, only i blamed⟩
  · rintro ⟨w, hw, stuck⟩
    obtain ⟨low, high⟩ := List.mem_range'_1.1 hw
    obtain ⟨c, hc, -, blamed⟩ := stuck_recorded config low high stuck
    exact ⟨c, hc, blamed⟩

theorem offsets_eq (room : 8 * (start + count) ≤ 2 ^ 64) (some : (s.faulty start count).Nonempty) :
    ∃ lo hi, IsLeast (s.faulty start count) lo ∧ IsGreatest (s.faulty start count) hi ∧
      r.minErrorOffset = BitVec.ofNat 64 (8 * lo) ∧ r.maxErrorOffset = BitVec.ofNat 64 (8 * hi) := by
  have inside : ∀ w ∈ s.faulty start count, 8 * w < 2 ^ 64 := fun w hw => by
    have := hw.2.1
    omega
  have recorded : faultCalls (fun _ => s.read) config memoryLoadPhases
      (List.range' start count) ≠ [] := fun none => faultCalls_eq_nil.1 none some
  obtain ⟨c, hc, least⟩ := h.least_mem recorded
  obtain ⟨lo, hlo, offset, -⟩ := recorded_faulty hc
  obtain ⟨d, hd, greatest⟩ := h.greatest_mem recorded
  obtain ⟨hi, hhi, offset', -⟩ := recorded_faulty hd
  have order : ∀ {w w' : Nat}, w ∈ s.faulty start count → w' ∈ s.faulty start count →
      BitVec.ofNat 64 (8 * w) ≤ BitVec.ofNat 64 (8 * w') → w ≤ w' := by
    intro w w' hw hw' le
    have := inside w hw
    have := inside w' hw'
    rw [BitVec.le_def, BitVec.toNat_ofNat, BitVec.toNat_ofNat] at le
    omega
  refine ⟨lo, hi, ⟨hlo, fun w hw => ?_⟩, ⟨hhi, fun w hw => ?_⟩, ?_, ?_⟩
  · obtain ⟨e, he, at_w⟩ := faulty_recorded config hw
    exact order hlo hw (by rw [← offset, ← at_w, least]; exact h.least e he)
  · obtain ⟨e, he, at_w⟩ := faulty_recorded config hw
    exact order hw hhi (by rw [← offset', ← at_w, greatest]; exact h.greatest e he)
  · rw [← least, offset]
  · rw [← greatest, offset']

end
end
end StuckBits

/-- The diagnosis of stuck bits is exact: status, bits, lowest and highest offset
are those of the slice's faulty words, and no other word is blamed. -/
theorem nxmtRunnerRunPass_stuckBits (s : StuckBits) (base size : Word) (config : NxmtRunConfig)
    (report : NxmtReport) (stats : NxmtRunStats) (b : Board Ram) (stops : Nat → Bool)
    (hbase : (nxmtArenaFromRange base size).base ≠ 0)
    (hwords : (nxmtArenaFromRange base size).words ≠ 0)
    (worker : config.workerId < config.workerCount) (long : config.mode ≠ .quick)
    (noInject : config.injectMismatch = false)
    (go : config.stopRequested = true → ∀ k, stops k = false) :
    let arena := nxmtArenaFromRange base size
    let start := sliceStart arena config
    let count := sliceCount arena config
    let serve := Env.serve ⟨s.device, fun _ m => m, stops⟩
    let pass := nxmtRunnerRunPass (some arena) (some config) (some (nxmtReportInit report))
      (some stats)
    let out := (exec serve pass b).1
    (out.status = .fail ↔ (s.faulty start count).Nonempty) ∧
      (∀ c ∈ records (trace serve pass b), ∃ w ∈ s.faulty start count,
        c.offset = BitVec.ofNat 64 (8 * w)) ∧
      ∃ r, out.report = some r ∧
        r = (nxmtReportInit report).recordAll (records (trace serve pass b)) ∧
        r.bitDiffOr = ((List.range' start count).map s.mask).foldr (· ||| ·) 0 ∧
        (out.status = .fail → ∃ lo hi, IsLeast (s.faulty start count) lo ∧
          IsGreatest (s.faulty start count) hi ∧
          r.minErrorOffset = BitVec.ofNat 64 (8 * lo) ∧
          r.maxErrorOffset = BitVec.ofNat 64 (8 * hi)) := by
  intro arena start count serve pass out
  have ok : Accepts arena config := fromRange_accepts hbase hwords worker
  have small := (nxmtArenaFromRange_wellFormed hwords).words_lt
  let env : Env Ram := ⟨s.device, fun _ m => m, stops⟩
  have go' : env.Uninterrupted config := go
  have still : ∀ m, env.device.Stable m := s.device_stable
  obtain ⟨recs, -, report_eq, status_eq, -⟩ := nxmtRunnerRunPass_uninterrupted still go' ok small
    (nxmtReportInit report) stats b
  have phases : nxmtPhasesForMode config.mode = memoryLoadPhases := if_neg long
  rw [passCalls_readsBack s.device_readsBack stops noInject, phases] at recs report_eq status_eq
  have denotes := (Denotes.init report).recordAll
    (faultCalls (fun _ => s.read) config memoryLoadPhases (List.range' start count))
  rw [List.nil_append] at denotes
  have failed : out.status = .fail ↔ (s.faulty start count).Nonempty := by
    have status : out.status = _ := status_eq
    rw [status, ite_eq_iff]
    simp only [reduceCtorEq, and_false, and_true, false_or, StuckBits.faultCalls_eq_nil, not_not]
    rfl
  refine ⟨failed, ?_, _, report_eq, ?_, ?_, ?_⟩
  · intro c hc
    rw [recs] at hc
    obtain ⟨w, hw, offset, -⟩ := StuckBits.recorded_faulty hc
    exact ⟨w, hw, offset⟩
  · rw [recs]
  · exact StuckBits.bitDiffOr_eq denotes
  · intro fail
    have room : 8 * (start + count) ≤ 2 ^ 64 := by
      have inside : start + count ≤ (nxmtArenaFromRange base size).words.toNat := slice_le ok
      omega
    exact StuckBits.offsets_eq denotes room (failed.1 fail)

/-- One page on which bit 3 of word 5 is stuck at one. -/
theorem nxmtRunnerRunPass_stuckBits_page :
    let s : StuckBits := ⟨fun w => if w = 5 then 8 else 0, fun _ => 8⟩
    let config : NxmtRunConfig := ⟨.extreme, 7, 0, 0, 1, false, false, false⟩
    let pass := nxmtRunnerRunPass (some (nxmtArenaFromRange 0x1000 0x1000)) (some config)
      (some (nxmtReportInit zeroReport)) (some ⟨0, 0, 0, .fixedA⟩)
    (exec (Env.serve ⟨s.device, fun _ m => m, fun _ => false⟩) pass
      ⟨fun _ => 0, ⟨0, 0, false⟩⟩).1.status = .fail := by
  intro s config pass
  have start : sliceStart (nxmtArenaFromRange 0x1000 0x1000) config = 0 := by decide
  have count : sliceCount (nxmtArenaFromRange 0x1000 0x1000) config = 512 := by decide
  have stuck := nxmtRunnerRunPass_stuckBits s 0x1000 0x1000 config zeroReport ⟨0, 0, 0, .fixedA⟩
    ⟨fun _ => 0, ⟨0, 0, false⟩⟩ (fun _ => false) (by decide) (by decide) (by decide) (by decide) rfl
    fun _ _ => rfl
  dsimp only at stuck
  rw [start, count] at stuck
  exact stuck.1.2 ⟨5, by decide, by decide, by decide⟩

end NxMemTest
