import NxMemTest.CellFaults
import NxMemTest.Reference

/-! Transition faults: bits that cannot rise and bits that cannot fall. Such a bit
holds the AND or the OR of all that was ever stored in it, so a pass finds it exactly
when a phase asks for the step that it cannot take. -/

namespace NxMemTest
open Interaction Program

/-- In word `w` the bits of `up w` cannot rise and those of `down w` cannot fall. -/
structure TransitionFaults where
  up : Nat → Word
  down : Nat → Word
  apart : ∀ w, up w &&& down w = 0

namespace TransitionFaults
variable (s : TransitionFaults)

def settle (w : Nat) (x v : Word) : Word := (v &&& ~~~(s.up w &&& ~~~x)) ||| (s.down w &&& x)

def device : Device Ram where
  load m p := (m p, m)
  store m p v := Function.update m p (s.settle p (m p) v)
  storeByte m q b := Function.update m (q / 8) (s.settle (q / 8) (m (q / 8)) (m.storeByte q b (q / 8)))

def effect : Effect := fun w v q x => if q = w then s.settle w x v else x

theorem device_stable (m : Ram) : s.device.Stable m := fun _ => rfl

theorem device_pointwise : Sweep.Pointwise s.device.view s.device.store s.effect := by
  intro m w v q
  by_cases own : q = w
  · subst own
    simp [Device.view, device, effect]
  · simp [Device.view, device, effect, own]

/-- When `phase` verifies bit `i` of word `w`, the bit should have risen and cannot, or
should have fallen and cannot. -/
def Misses (config : NxmtRunConfig) (x : Nat → Word) (before : List NxmtPhase)
    (phase : NxmtPhase) (w i : Nat) : Prop :=
  let bit := fun phase => (expectedWord config.seed phase config.pass w).getLsbD i
  ((s.up w).getLsbD i = true ∧ bit phase = true ∧
      ((x w).getLsbD i = false ∨ ∃ earlier ∈ before, bit earlier = false)) ∨
    ((s.down w).getLsbD i = true ∧ bit phase = false ∧
      ((x w).getLsbD i = true ∨ ∃ earlier ∈ before, bit earlier = true))

variable {s}

theorem not_both (w i : Nat) (up : (s.up w).getLsbD i = true) : (s.down w).getLsbD i = false := by
  have none := congrArg (fun x => BitVec.getLsbD x i) (s.apart w)
  simpa [up] using none

theorem getLsbD_settle (w : Nat) (x v : Word) (i : Nat) : (s.settle w x v).getLsbD i =
    if (s.up w).getLsbD i then x.getLsbD i && v.getLsbD i
    else if (s.down w).getLsbD i then x.getLsbD i || v.getLsbD i else v.getLsbD i := by
  by_cases hi : i < 64
  · simp only [settle, BitVec.getLsbD_or, BitVec.getLsbD_and, BitVec.getLsbD_not, hi, decide_true,
      Bool.true_and]
    cases up : (s.up w).getLsbD i with
    | true =>
      rw [not_both w i up]
      cases x.getLsbD i <;> cases v.getLsbD i <;> rfl
    | false => cases (s.down w).getLsbD i <;> cases x.getLsbD i <;> cases v.getLsbD i <;> rfl
  · simp [BitVec.getLsbD_of_ge _ i (Nat.le_of_not_lt hi)]

section
variable {config : NxmtRunConfig} {ws : List Nat} {w : Nat} (nodup : ws.Nodup) (hw : w ∈ ws)
include nodup hw

theorem phase_settle (phase : NxmtPhase) (x : Word) :
    s.effect.phase config ws phase w x =
      s.settle w x (expectedWord config.seed phase config.pass w) := by
  rw [Effect.phase, Sweep.fold_own nodup hw fun q _ other x => if_neg (Ne.symm other)]
  exact if_pos rfl

theorem after_up {i : Nat} (up : (s.up w).getLsbD i = true) (phases : List NxmtPhase) (x : Word) :
    (s.effect.after config ws phases w x).getLsbD i = (x.getLsbD i &&
      phases.all fun phase => (expectedWord config.seed phase config.pass w).getLsbD i) := by
  induction phases generalizing x with
  | nil => simp [Effect.after]
  | cons phase phases ih =>
    rw [Effect.after_cons, ih, phase_settle nodup hw, getLsbD_settle, if_pos up, List.all_cons,
      Bool.and_assoc]

theorem after_down {i : Nat} (down : (s.down w).getLsbD i = true) (phases : List NxmtPhase)
    (x : Word) :
    (s.effect.after config ws phases w x).getLsbD i = (x.getLsbD i ||
      phases.any fun phase => (expectedWord config.seed phase config.pass w).getLsbD i) := by
  have up : ¬ (s.up w).getLsbD i = true := fun up => by
    rw [not_both w i up] at down
    exact Bool.false_ne_true down
  induction phases generalizing x with
  | nil => simp [Effect.after]
  | cons phase phases ih =>
    rw [Effect.after_cons, ih, phase_settle nodup hw, getLsbD_settle, if_neg up, if_pos down,
      List.any_cons, Bool.or_assoc]

theorem after_healthy {i : Nat} (up : (s.up w).getLsbD i = false)
    (down : (s.down w).getLsbD i = false) (before : List NxmtPhase) (phase : NxmtPhase) (x : Word) :
    (s.effect.after config ws (before ++ [phase]) w x).getLsbD i =
      (expectedWord config.seed phase config.pass w).getLsbD i := by
  have last : s.effect.after config ws (before ++ [phase]) w x =
      s.effect.phase config ws phase w (s.effect.after config ws before w x) := List.foldl_append
  rw [last, phase_settle nodup hw, getLsbD_settle, up, down]
  rfl

theorem wrong_iff (x : Nat → Word) (before : List NxmtPhase) (phase : NxmtPhase) (i : Nat) :
    s.effect.Wrong config ws x before phase w i ↔ s.Misses config x before phase w i := by
  rw [Effect.Wrong, BitVec.getLsbD_xor, Misses]
  dsimp only
  cases up : (s.up w).getLsbD i with
  | true =>
    rw [after_up nodup hw up, not_both w i up, List.all_append]
    cases last : (expectedWord config.seed phase config.pass w).getLsbD i <;> simp [last]
  | false =>
    cases down : (s.down w).getLsbD i with
    | true =>
      rw [after_down nodup hw down, List.any_append]
      cases last : (expectedWord config.seed phase config.pass w).getLsbD i <;> simp [last]
    | false =>
      rw [after_healthy nodup hw up down, Bool.xor_self]
      simp

end

def Turns (w i : Nat) : Prop :=
  (i % 2 = 0 ∧ (s.up w).getLsbD i = true) ∨ (i % 2 = 1 ∧ (s.down w).getLsbD i = true)

theorem fixed_bits {i : Nat} (hi : i < 64) :
    kFixedA.getLsbD i = decide (i % 2 = 1) ∧ kFixed5.getLsbD i = decide (i % 2 = 0) := by
  revert i
  decide

theorem misses_fixed5 {config : NxmtRunConfig} {x : Nat → Word} {w i : Nat} (turns : s.Turns w i) :
    s.Misses config x [.fixedA] .fixed5 w i := by
  simp only [Misses, List.mem_singleton, exists_eq_left, expectedWord_fixedA, expectedWord_fixed5]
  rcases turns with ⟨even, up⟩ | ⟨odd, down⟩
  · obtain ⟨bitA, bit5⟩ := fixed_bits (BitVec.lt_of_getLsbD up)
    rw [bitA, bit5, even]
    exact .inl ⟨up, rfl, .inr rfl⟩
  · obtain ⟨bitA, bit5⟩ := fixed_bits (BitVec.lt_of_getLsbD down)
    rw [bitA, bit5, odd]
    exact .inr ⟨down, rfl, .inr rfl⟩

end TransitionFaults

/-- A pass blames a bit in a phase exactly when the phase asks it for the step that it
cannot take, and fails when there is such a bit. The longer modes always ask the even
bits to rise and the odd ones to fall. -/
theorem nxmtRunnerRunPass_transitionFaults (s : TransitionFaults) (base size : Word)
    (config : NxmtRunConfig) (report : NxmtReport) (stats : NxmtRunStats) (b : Board Ram)
    (stops : Nat → Bool) (hbase : (nxmtArenaFromRange base size).base ≠ 0)
    (hwords : (nxmtArenaFromRange base size).words ≠ 0)
    (worker : config.workerId < config.workerCount) (noInject : config.injectMismatch = false)
    (go : config.stopRequested = true → ∀ k, stops k = false) :
    let arena := nxmtArenaFromRange base size
    let ws := List.range' (sliceStart arena config) (sliceCount arena config)
    let serve := Env.serve ⟨s.device, fun _ m => m, stops⟩
    let pass := nxmtRunnerRunPass (some arena) (some config) (some report) (some stats)
    let calls := records (trace serve pass b)
    (∀ before phase rest, nxmtPhasesForMode config.mode = before ++ phase :: rest →
      ∀ w ∈ ws, ∀ i, Blames calls phase w i ↔ s.Misses config b.memory before phase w i) ∧
      ((exec serve pass b).1.status = .fail ↔
        ∃ before phase rest, nxmtPhasesForMode config.mode = before ++ phase :: rest ∧
          ∃ w ∈ ws, ∃ i, s.Misses config b.memory before phase w i) ∧
      (config.mode ≠ .quick → ∀ w ∈ ws, ∀ i, s.Turns w i → Blames calls .fixed5 w i) := by
  intro arena ws serve pass calls
  have ok : Accepts arena config := fromRange_accepts hbase hwords worker
  have small := (nxmtArenaFromRange_wellFormed hwords).words_lt
  obtain ⟨blames, fails⟩ := runPass_effect s.device_pointwise noInject s.device_stable go ok small
    report stats b
  have nodup : ws.Nodup := List.nodup_range'
  have wrong : ∀ before phase, ∀ w ∈ ws, ∀ i,
      s.effect.Wrong config ws b.memory before phase w i ↔
        s.Misses config b.memory before phase w i := fun before phase w hw i =>
    TransitionFaults.wrong_iff nodup hw b.memory before phase i
  have blamed : ∀ before phase rest, nxmtPhasesForMode config.mode = before ++ phase :: rest →
      ∀ w ∈ ws, ∀ i, Blames calls phase w i ↔ s.Misses config b.memory before phase w i :=
    fun before phase rest split w hw i =>
      (blames before phase rest split w hw i).trans (wrong before phase w hw i)
  refine ⟨blamed, fails.trans ?_, fun long w hw i turns => ?_⟩
  · constructor
    · rintro ⟨before, phase, rest, split, w, hw, i, h⟩
      exact ⟨before, phase, rest, split, w, hw, i, (wrong before phase w hw i).1 h⟩
    · rintro ⟨before, phase, rest, split, w, hw, i, h⟩
      exact ⟨before, phase, rest, split, w, hw, i, (wrong before phase w hw i).2 h⟩
  · exact (blamed [.fixedA] .fixed5 _ (if_neg long) w hw i).2 (TransitionFaults.misses_fixed5 turns)

/-- One page in which bit 2 of word 9 cannot rise. -/
theorem nxmtRunnerRunPass_transitionFaults_page :
    let s : TransitionFaults :=
      ⟨fun w => if w = 9 then 4 else 0, fun _ => 0, fun _ => BitVec.and_zero⟩
    let config : NxmtRunConfig := ⟨.memoryLoad, 7, 0, 0, 1, false, false, false⟩
    let pass := nxmtRunnerRunPass (some (nxmtArenaFromRange 0x1000 0x1000)) (some config)
      (some zeroReport) (some ⟨0, 0, 0, .fixedA⟩)
    Blames (records (trace (Env.serve ⟨s.device, fun _ m => m, fun _ => false⟩) pass
      ⟨fun _ => 0, ⟨0, 0, false⟩⟩)) .fixed5 9 2 := by
  intro s config pass
  have start : sliceStart (nxmtArenaFromRange 0x1000 0x1000) config = 0 := by decide
  have count : sliceCount (nxmtArenaFromRange 0x1000 0x1000) config = 512 := by decide
  have faults := nxmtRunnerRunPass_transitionFaults s 0x1000 0x1000 config zeroReport
    ⟨0, 0, 0, .fixedA⟩ ⟨fun _ => 0, ⟨0, 0, false⟩⟩ (fun _ => false) (by decide) (by decide)
    (by decide) rfl fun _ _ => rfl
  dsimp only at faults
  rw [start, count] at faults
  exact faults.2.2 (by decide) 9 (by simp) 2 (.inl ⟨rfl, by decide⟩)

end NxMemTest
