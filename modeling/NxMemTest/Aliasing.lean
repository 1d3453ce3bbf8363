import NxMemTest.Faults
import NxMemTest.Reference
import Mathlib.Data.Finset.Card
import Mathlib.Order.Interval.Finset.Nat

/-! Address lines that confuse words. Of the words that share a cell only the
last one written reads right, so a phase that expects different values
everywhere records every other. -/

namespace NxMemTest
open Interaction Program

section
variable {κ : Type} [DecidableEq κ]

/-- Memory whose word `w` lives in the cell `φ w`. -/
def aliasing (φ : Nat → κ) : Device (κ → Word) where
  load m p := (m (φ p), m)
  store m p v := Function.update m (φ p) v
  storeByte m q b :=
    Function.update m (φ (q / 8))
      ((m (φ (q / 8)) &&& ~~~(0xff#64 <<< (8 * (q % 8)))) ||| (b.setWidth 64 <<< (8 * (q % 8))))

variable (φ : Nat → κ)

theorem aliasing_stable (m : κ → Word) : (aliasing φ).Stable m := fun _ => rfl

theorem storeWords_aliasing (f : Nat → Word) (m : κ → Word) (ws : List Nat) :
    ∀ w ∈ ws, ∃ w' ∈ ws, φ w' = φ w ∧ storeWords (aliasing φ) ws f m (φ w) = f w' := by
  induction ws using List.reverseRecOn with
  | nil => simp
  | append_singleton ws q ih =>
    intro w hw
    have last : storeWords (aliasing φ) (ws ++ [q]) f m =
        Function.update (storeWords (aliasing φ) ws f m) (φ q) (f q) := storeWords_append _ _ _ _ _
    rw [last]
    by_cases cell : φ w = φ q
    · exact ⟨q, by simp, cell.symm, by rw [cell, Function.update_self]⟩
    · have earlier : w ∈ ws := by
        rcases List.mem_append.1 hw with hw | hw
        · exact hw
        · exact absurd (congrArg φ (List.mem_singleton.1 hw)) cell
      obtain ⟨w', hw', same, value⟩ := ih w earlier
      exact ⟨w', List.mem_append_left _ hw', same, by rw [Function.update_of_ne cell, value]⟩

/-- If all the stored values differ, exactly one word of each cell reads right. -/
theorem card_right (f : Nat → Word) (m : κ → Word) (ws : List Nat)
    (inj : ∀ w ∈ ws, ∀ w' ∈ ws, f w = f w' → w = w') :
    (ws.toFinset.filter fun w => storeWords (aliasing φ) ws f m (φ w) = f w).card =
      (ws.toFinset.image φ).card := by
  have image : (ws.toFinset.filter fun w => storeWords (aliasing φ) ws f m (φ w) = f w).image φ =
      ws.toFinset.image φ := by
    ext c
    simp only [Finset.mem_image, Finset.mem_filter, List.mem_toFinset]
    constructor
    · rintro ⟨w, ⟨hw, -⟩, rfl⟩
      exact ⟨w, hw, rfl⟩
    · rintro ⟨w, hw, rfl⟩
      obtain ⟨w', hw', same, value⟩ := storeWords_aliasing φ f m ws w hw
      exact ⟨w', ⟨hw', by rw [same, value]⟩, same⟩
  rw [← image, Finset.card_image_of_injOn]
  intro w hw w' hw' same
  simp only [Finset.coe_filter, List.mem_toFinset, Set.mem_ofPred_eq] at hw hw'
  refine inj w hw.1 w' hw'.1 ?_
  rw [← hw.2, ← hw'.2, same]

theorem wrongWords_aliasing (config : NxmtRunConfig) (phase : NxmtPhase) (start count : Nat)
    (m : κ → Word)
    (inj : ∀ w ∈ List.range' start count, ∀ w' ∈ List.range' start count,
      expectedWord config.seed phase config.pass w = expectedWord config.seed phase config.pass w' →
        w = w') :
    (wrongWords config phase (List.range' start count) ((aliasing φ).view
      (storeWords (aliasing φ) (List.range' start count)
        (expectedWord config.seed phase config.pass) m))).length =
      count - ((Finset.Ico start (start + count)).image φ).card := by
  let ws := List.range' start count
  let f := expectedWord config.seed phase config.pass
  let right : Nat → Bool := fun w => storeWords (aliasing φ) ws f m (φ w) = f w
  have slice : ws.toFinset = Finset.Ico start (start + count) := by
    ext w
    simp [ws]
  have good : (ws.filter right).length = ((Finset.Ico start (start + count)).image φ).card := by
    rw [← slice, ← card_right φ f m ws inj]
    have nodup : (ws.filter right).Nodup := List.Nodup.filter _ List.nodup_range'
    rw [← List.toFinset_card_of_nodup nodup, List.toFinset_filter]
    simp only [right, decide_eq_true_eq]
  have bad : wrongWords config phase ws ((aliasing φ).view (storeWords (aliasing φ) ws f m)) =
      (ws.filter fun w => !right w).map fun w =>
        errorCall config phase w (storeWords (aliasing φ) ws f m (φ w)) := by
    simp only [right, ← decide_not]
    rfl
  have parts : ws.length = (ws.filter right).length + (ws.filter fun w => !right w).length :=
    List.length_eq_length_filter_add right
  have whole : ws.length = count := List.length_range'
  change (wrongWords config phase ws ((aliasing φ).view (storeWords (aliasing φ) ws f m))).length = _
  rw [bad, List.length_map]
  omega

end

/-! ### Phases whose values differ everywhere -/

theorem offset_injective {w w' : Nat} (hw : 8 * w < 2 ^ 64) (hw' : 8 * w' < 2 ^ 64)
    (same : BitVec.ofNat 64 (8 * w) = BitVec.ofNat 64 (8 * w')) : w = w' := by
  have value := congrArg BitVec.toNat same
  rw [BitVec.toNat_ofNat, BitVec.toNat_ofNat] at value
  omega

theorem expectedWord_address_injective (seed pass : Word) {w w' : Nat} (hw : 8 * w < 2 ^ 64)
    (hw' : 8 * w' < 2 ^ 64)
    (same : expectedWord seed .address pass w = expectedWord seed .address pass w') : w = w' := by
  simp only [expectedWord, nxmtExpectedValue, BitVec.xor_left_inj] at same
  exact offset_injective hw hw' same

theorem expectedWord_random_injective (seed pass : Word) {w w' : Nat} (hw : 8 * w < 2 ^ 64)
    (hw' : 8 * w' < 2 ^ 64)
    (same : expectedWord seed .random pass w = expectedWord seed .random pass w') : w = w' := by
  simp only [expectedWord, nxmtExpectedValue, wordIndex_word hw, wordIndex_word hw',
    BitVec.xor_left_inj] at same
  have value := congrArg BitVec.toNat (bswap64_injective same)
  rw [BitVec.toNat_ofNat, BitVec.toNat_ofNat] at value
  omega

def phaseRecords (phase : NxmtPhase) (calls : List RecordCall) : List RecordCall :=
  calls.filter fun c => c.phase = phase

theorem phaseRecords_wrongWords (config : NxmtRunConfig) (phase phase' : NxmtPhase)
    (ws : List Nat) (contents : Nat → Word) :
    phaseRecords phase (wrongWords config phase' ws contents) =
      if phase' = phase then wrongWords config phase' ws contents else [] := by
  simp only [phaseRecords, wrongWords, List.filter_map]
  split
  · rename_i same
    subst same
    congr 1
    exact List.filter_eq_self.2 fun w _ => decide_eq_true rfl
  · rename_i other
    rw [List.map_eq_nil_iff, List.filter_eq_nil_iff]
    exact fun w _ => by simpa [errorCall] using other

theorem phaseRecords_passCalls {σ : Type} (env : Env σ) (start count : Nat) (config : NxmtRunConfig)
    (phase : NxmtPhase) (k : Nat)
    (each : ∀ m, (wrongWords config phase (List.range' start count)
      (env.device.view (phaseMemory env start count config phase m))).length = k)
    (phases : List NxmtPhase) (m : σ) :
    (phaseRecords phase (passCalls env start count config phases m).1).length =
      phases.count phase * k := by
  induction phases generalizing m with
  | nil => simp [passCalls, phaseRecords]
  | cons phase' phases ih =>
    have rest := ih (phaseMemory env start count config phase' m)
    simp only [passCalls]
    rw [phaseRecords, List.filter_append, ← phaseRecords, ← phaseRecords, List.length_append, rest,
      phaseRecords_wrongWords]
    split
    · rename_i same
      subst same
      rw [each, List.count_cons_self, Nat.succ_mul, Nat.add_comm]
    · rename_i other
      rw [List.count_cons_of_ne other, List.length_nil, Nat.zero_add]

theorem phaseCount_one (mode : NxmtMode) :
    (nxmtPhasesForMode mode).count .address = 1 ∧ (nxmtPhasesForMode mode).count .random = 1 := by
  cases mode <;> decide

/-- However the words of a slice share cells, `ADDRESS` and `RANDOM` record every
word but one of each cell. -/
theorem nxmtRunnerRunPass_aliasing {κ : Type} [DecidableEq κ] (φ : Nat → κ) (base size : Word)
    (config : NxmtRunConfig) (report : NxmtReport) (stats : NxmtRunStats)
    (b : Board (κ → Word)) (stops : Nat → Bool)
    (hbase : (nxmtArenaFromRange base size).base ≠ 0)
    (hwords : (nxmtArenaFromRange base size).words ≠ 0)
    (worker : config.workerId < config.workerCount) (noInject : config.injectMismatch = false)
    (go : config.stopRequested = true → ∀ k, stops k = false) :
    let arena := nxmtArenaFromRange base size
    let count := sliceCount arena config
    let slice := Finset.Ico (sliceStart arena config) (sliceStart arena config + count)
    let serve := Env.serve ⟨aliasing φ, fun _ m => m, stops⟩
    let pass := nxmtRunnerRunPass (some arena) (some config) (some report) (some stats)
    let out := (exec serve pass b).1
    let calls := records (trace serve pass b)
    out.report = some (report.recordAll calls) ∧
      (phaseRecords .address calls).length = count - (slice.image φ).card ∧
      (phaseRecords .random calls).length = count - (slice.image φ).card ∧
      (¬ Set.InjOn φ slice → out.status = .fail) := by
  intro arena count slice serve pass out calls
  have ok : Accepts arena config := fromRange_accepts hbase hwords worker
  have small := (nxmtArenaFromRange_wellFormed hwords).words_lt
  let env : Env (κ → Word) := ⟨aliasing φ, fun _ m => m, stops⟩
  have still : ∀ m, env.device.Stable m := aliasing_stable φ
  have go' : env.Uninterrupted config := go
  obtain ⟨recs, -, report_eq, status_eq, -⟩ :=
    nxmtRunnerRunPass_uninterrupted still go' ok small report stats b
  have inside : ∀ w ∈ List.range' (sliceStart arena config) count, 8 * w < 2 ^ 64 := by
    intro w hw
    have top : sliceStart arena config + count ≤ (nxmtArenaFromRange base size).words.toNat :=
      slice_le ok
    have := List.mem_range'_1.1 hw
    omega
  have recs : calls = (passCalls env (sliceStart arena config) count config
    (nxmtPhasesForMode config.mode) b.memory).1 := recs
  -- a phase that gives every word its own value records all but one of each cell
  have each : ∀ phase, (nxmtPhasesForMode config.mode).count phase = 1 →
      (∀ w ∈ List.range' (sliceStart arena config) count,
        ∀ w' ∈ List.range' (sliceStart arena config) count,
          expectedWord config.seed phase config.pass w =
            expectedWord config.seed phase config.pass w' → w = w') →
      (phaseRecords phase calls).length = count - (slice.image φ).card := by
    intro phase once inj
    have found := phaseRecords_passCalls env (sliceStart arena config) count config phase
      (count - (slice.image φ).card) ?_ (nxmtPhasesForMode config.mode) b.memory
    · rwa [once, Nat.one_mul, ← recs] at found
    · intro m
      simp only [phaseMemory, noInject, Bool.false_eq_true, false_and, if_false, env, ite_self]
      exact wrongWords_aliasing φ config phase _ _ m inj
  obtain ⟨once, once'⟩ := phaseCount_one config.mode
  have address := each .address once fun w hw w' hw' =>
    expectedWord_address_injective config.seed config.pass (inside w hw) (inside w' hw')
  have random := each .random once' fun w hw w' hw' =>
    expectedWord_random_injective config.seed config.pass (inside w hw) (inside w' hw')
  refine ⟨?_, address, random, fun shared => ?_⟩
  · rw [recs]
    exact report_eq
  · have fewer : (slice.image φ).card < count := by
      have size : slice.card = count := by simp [slice]
      rw [← size]
      exact lt_of_le_of_ne Finset.card_image_le (mt Finset.card_image_iff.1 shared)
    have some : calls ≠ [] := by
      intro none
      rw [none] at address
      have zero : (phaseRecords .address []).length = 0 := rfl
      omega
    exact status_eq.trans (if_neg fun none => some (recs.trans none))

/-- One page whose lowest word address line is broken. -/
theorem nxmtRunnerRunPass_aliasing_page :
    let φ : Nat → Nat := fun w => w / 2
    let config : NxmtRunConfig := ⟨.quick, 1, 0, 0, 1, false, false, false⟩
    let pass := nxmtRunnerRunPass (some (nxmtArenaFromRange 0x1000 0x1000)) (some config)
      (some zeroReport) (some ⟨0, 0, 0, .fixedA⟩)
    (exec (Env.serve ⟨aliasing φ, fun _ m => m, fun _ => false⟩) pass
      ⟨fun _ => 0, ⟨0, 0, false⟩⟩).1.status = .fail := by
  intro φ config pass
  have start : sliceStart (nxmtArenaFromRange 0x1000 0x1000) config = 0 := by decide
  have count : sliceCount (nxmtArenaFromRange 0x1000 0x1000) config = 512 := by decide
  have aliased := nxmtRunnerRunPass_aliasing φ 0x1000 0x1000 config zeroReport ⟨0, 0, 0, .fixedA⟩
    ⟨fun _ => 0, ⟨0, 0, false⟩⟩ (fun _ => false) (by decide) (by decide) (by decide) rfl
    fun _ _ => rfl
  dsimp only at aliased
  rw [start, count] at aliased
  refine aliased.2.2.2 fun inj => ?_
  have same := @inj 0 (by simp) 1 (by simp) (by decide)
  exact absurd same (by decide)

end NxMemTest
