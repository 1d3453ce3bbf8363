import NxMemTest.Faults
import NxMemTest.Lib.Sweep

/-! Memory in which a store may do something else than it should, to its own word
and to others. What an uninterrupted pass records of a word then follows from what
every store of every phase so far has done to it. -/

namespace NxMemTest
open Interaction Program

/-- A store of `v` in word `w` makes `effect w v q x` of an `x` in word `q`. -/
abbrev Effect := Nat → Word → Nat → Word → Word

namespace Effect
variable (effect : Effect) (config : NxmtRunConfig) (ws : List Nat)

def phase (phase : NxmtPhase) (q : Nat) (x : Word) : Word :=
  Sweep.fold effect (expectedWord config.seed phase config.pass) ws q x

def after (phases : List NxmtPhase) (q : Nat) (x : Word) : Word :=
  phases.foldl (fun x phase => effect.phase config ws phase q x) x

theorem after_cons (phase : NxmtPhase) (phases : List NxmtPhase) (q : Nat) (x : Word) :
    effect.after config ws (phase :: phases) q x =
      effect.after config ws phases q (effect.phase config ws phase q x) := rfl

end Effect

section
variable {σ : Type} {d : Device σ} {effect : Effect} {config : NxmtRunConfig}
  (acts : Sweep.Pointwise d.view d.store effect) (noInject : config.injectMismatch = false)
include acts noInject

theorem view_phaseMemory (stops : Nat → Bool) (start count : Nat) (phase : NxmtPhase) (m : σ)
    (q : Nat) :
    d.view (phaseMemory ⟨d, fun _ m => m, stops⟩ start count config phase m) q =
      effect.phase config (List.range' start count) phase q (d.view m q) := by
  simp only [phaseMemory, noInject, Bool.false_eq_true, false_and, if_false, ite_self]
  exact Sweep.read_writes acts _ _ _ _

theorem mem_passCalls_effect (stops : Nat → Bool) (start count : Nat) (phases : List NxmtPhase)
    (m : σ) (c : RecordCall) :
    c ∈ (passCalls ⟨d, fun _ m => m, stops⟩ start count config phases m).1 ↔
      ∃ before phase rest, phases = before ++ phase :: rest ∧
        ∃ w ∈ List.range' start count,
          let found := effect.after config (List.range' start count) (before ++ [phase]) w (d.view m w)
          found ≠ expectedWord config.seed phase config.pass w ∧
            c = errorCall config phase w found := by
  induction phases generalizing m with
  | nil => simp [passCalls]
  | cons phase phases ih =>
    rw [passCalls, List.mem_append, mem_wrongWords, ih]
    simp only [view_phaseMemory acts noInject]
    constructor
    · rintro (⟨w, hw, wrong, rfl⟩ | ⟨before, phase', rest, rfl, w, hw, wrong, rfl⟩)
      · exact ⟨[], phase, phases, rfl, w, hw, wrong, rfl⟩
      · exact ⟨phase :: before, phase', rest, rfl, w, hw, wrong, rfl⟩
    · rintro ⟨before, phase', rest, split, w, hw, wrong, rfl⟩
      cases before with
      | nil =>
        obtain ⟨rfl, rfl⟩ := List.cons.inj split
        exact .inl ⟨w, hw, wrong, rfl⟩
      | cons first before =>
        obtain ⟨rfl, rfl⟩ := List.cons.inj split
        exact .inr ⟨before, phase', rest, rfl, w, hw, wrong, rfl⟩

end

def Blames (calls : List RecordCall) (phase : NxmtPhase) (w i : Nat) : Prop :=
  ∃ c ∈ calls, c.phase = phase ∧ c.offset = BitVec.ofNat 64 (8 * w) ∧ c.diff.getLsbD i = true

theorem split_unique {α : Type} {l before before' rest rest' : List α} {a : α} (nodup : l.Nodup)
    (split : l = before ++ a :: rest) (split' : l = before' ++ a :: rest') : before = before' := by
  have parts := List.nodup_append.1 (split ▸ nodup)
  have earlier : a ∉ before := fun h => parts.2.2 a h a List.mem_cons_self rfl
  have later : a ∉ rest := (List.nodup_cons.1 parts.2.1).1
  exact ((List.append_cons_inj_of_notMem earlier later).1 (split.symm.trans split')).1

/-- When `phase` runs after the phases `before`, it finds bit `i` of word `w` other than
it should be; the words held `x` before the pass. -/
def Effect.Wrong (effect : Effect) (config : NxmtRunConfig) (ws : List Nat) (x : Nat → Word)
    (before : List NxmtPhase) (phase : NxmtPhase) (w i : Nat) : Prop :=
  (expectedWord config.seed phase config.pass w ^^^
    effect.after config ws (before ++ [phase]) w (x w)).getLsbD i = true

def Effect.Fails (effect : Effect) (config : NxmtRunConfig) (ws : List Nat) (x : Nat → Word) : Prop :=
  ∃ before phase rest, nxmtPhasesForMode config.mode = before ++ phase :: rest ∧
    ∃ w ∈ ws, ∃ i, effect.Wrong config ws x before phase w i

theorem Effect.exists_wrong {effect : Effect} {config : NxmtRunConfig} {ws : List Nat}
    {x : Nat → Word} {before : List NxmtPhase} {phase : NxmtPhase} {w : Nat} :
    (∃ i, effect.Wrong config ws x before phase w i) ↔
      effect.after config ws (before ++ [phase]) w (x w) ≠
        expectedWord config.seed phase config.pass w := by
  have none : effect.after config ws (before ++ [phase]) w (x w) =
      expectedWord config.seed phase config.pass w ↔
        ∀ i, ¬ effect.Wrong config ws x before phase w i := by
    simp only [Effect.Wrong, Bool.not_eq_true]
    rw [← BitWord.eq_zero_iff_getLsbD, BitVec.xor_eq_zero_iff]
    exact eq_comm
  rw [Ne, none, not_forall_not]

section
variable {σ : Type} {d : Device σ} {effect : Effect} {config : NxmtRunConfig} {arena : NxmtArena}

theorem runPass_effect (acts : Sweep.Pointwise d.view d.store effect)
    (noInject : config.injectMismatch = false) (still : ∀ m, d.Stable m) {stops : Nat → Bool}
    (go : config.stopRequested = true → ∀ k, stops k = false) (ok : Accepts arena config)
    (small : arena.words.toNat < 2 ^ 61) (report : NxmtReport) (stats : NxmtRunStats) (b : Board σ) :
    let ws := List.range' (sliceStart arena config) (sliceCount arena config)
    let serve := Env.serve ⟨d, fun _ m => m, stops⟩
    let pass := nxmtRunnerRunPass (some arena) (some config) (some report) (some stats)
    (∀ before phase rest, nxmtPhasesForMode config.mode = before ++ phase :: rest →
      ∀ w ∈ ws, ∀ i, Blames (records (trace serve pass b)) phase w i ↔
        effect.Wrong config ws (d.view b.memory) before phase w i) ∧
      ((exec serve pass b).1.status = .fail ↔ effect.Fails config ws (d.view b.memory)) := by
  intro ws serve pass
  let env : Env σ := ⟨d, fun _ m => m, stops⟩
  have go' : env.Uninterrupted config := go
  have still' : ∀ m, env.device.Stable m := still
  obtain ⟨recs, -, -, status, -⟩ := nxmtRunnerRunPass_uninterrupted still' go' ok small report stats b
  have recs : records (trace serve pass b) = _ := recs
  have mem := fun c => mem_passCalls_effect acts noInject stops (sliceStart arena config)
    (sliceCount arena config) (nxmtPhasesForMode config.mode) b.memory c
  rw [← recs] at mem status
  refine ⟨fun before phase rest split w hw i => ?_, ?_⟩
  · constructor
    · rintro ⟨c, hc, rfl, offset, blamed⟩
      obtain ⟨before', phase', rest', split', w', hw', wrong, rfl⟩ := (mem c).1 hc
      have same := split_unique (nxmtPhasesForMode_nodup config.mode) split split'
      have top := slice_le ok
      have inside := List.mem_range'_1.1 hw
      have inside' := List.mem_range'_1.1 hw'
      have place := congrArg BitVec.toNat offset
      simp only [errorCall, BitVec.toNat_ofNat] at place
      have word : w' = w := by omega
      rw [word, ← same] at blamed
      exact blamed
    · intro wrong
      exact ⟨_, (mem _).2 ⟨before, phase, rest, split, w, hw, Effect.exists_wrong.1 ⟨i, wrong⟩, rfl⟩,
        rfl, rfl, wrong⟩
  · rw [status, ite_eq_iff]
    simp only [reduceCtorEq, and_false, and_true, false_or]
    constructor
    · intro some
      obtain ⟨c, hc⟩ := List.exists_mem_of_ne_nil _ some
      obtain ⟨before, phase, rest, split, w, hw, wrong, -⟩ := (mem c).1 hc
      exact ⟨before, phase, rest, split, w, hw, Effect.exists_wrong.2 wrong⟩
    · rintro ⟨before, phase, rest, split, w, hw, wrong⟩ none
      have recorded := (mem _).2 ⟨before, phase, rest, split, w, hw, Effect.exists_wrong.1 wrong, rfl⟩
      rw [none] at recorded
      exact List.not_mem_nil recorded

end
end NxMemTest
