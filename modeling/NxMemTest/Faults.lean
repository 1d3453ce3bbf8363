import NxMemTest.PassSpec

/-! Faults that each word has by itself: what a word reads back depends on the
phase and on the value written to it. What an uninterrupted pass records is then
fixed by the slice alone, whatever was in memory. -/

namespace NxMemTest
open Interaction Program

/-- What word `w` reads back in `phase` when `v` was written to it. -/
abbrev Fault := NxmtPhase → Nat → Word → Word

def Fault.corrupt (f : Fault) (phase : NxmtPhase) (m : Ram) : Ram := fun w => f phase w (m w)

def faultCalls (f : Fault) (config : NxmtRunConfig) (phases : List NxmtPhase) (ws : List Nat) :
    List RecordCall :=
  phases.flatMap fun phase => wrongWords config phase ws fun w =>
    f phase w (expectedWord config.seed phase config.pass w)

theorem faultCalls_length_le (f : Fault) (config : NxmtRunConfig) (phases : List NxmtPhase)
    (ws : List Nat) : (faultCalls f config phases ws).length ≤ phases.length * ws.length := by
  induction phases with
  | nil => simp [faultCalls]
  | cons phase phases ih =>
    have head := wrongWords_length_le config phase ws fun w =>
      f phase w (expectedWord config.seed phase config.pass w)
    rw [faultCalls, List.flatMap_cons, ← faultCalls, List.length_append, List.length_cons,
      Nat.succ_mul]
    omega

theorem mem_wrongWords {config : NxmtRunConfig} {phase : NxmtPhase} {ws : List Nat}
    {contents : Nat → Word} {c : RecordCall} :
    c ∈ wrongWords config phase ws contents ↔
      ∃ w ∈ ws, contents w ≠ expectedWord config.seed phase config.pass w ∧
        c = errorCall config phase w (contents w) := by
  simp only [wrongWords, List.mem_map, List.mem_filter, decide_eq_true_eq, and_assoc,
    @eq_comm _ c]

theorem mem_faultCalls {f : Fault} {config : NxmtRunConfig} {phases : List NxmtPhase}
    {ws : List Nat} {c : RecordCall} :
    c ∈ faultCalls f config phases ws ↔ ∃ phase ∈ phases, ∃ w ∈ ws,
      f phase w (expectedWord config.seed phase config.pass w) ≠
          expectedWord config.seed phase config.pass w ∧
        c = errorCall config phase w
          (f phase w (expectedWord config.seed phase config.pass w)) := by
  simp only [faultCalls, List.mem_flatMap, mem_wrongWords]

theorem passCalls_eq_faultCalls {σ : Type} {env : Env σ} {f : Fault} {config : NxmtRunConfig}
    {start count : Nat}
    (reads : ∀ phase m, ∀ w ∈ List.range' start count,
      env.device.view (phaseMemory env start count config phase m) w =
        f phase w (expectedWord config.seed phase config.pass w))
    (phases : List NxmtPhase) (m : σ) :
    (passCalls env start count config phases m).1 =
      faultCalls f config phases (List.range' start count) := by
  induction phases generalizing m with
  | nil => rfl
  | cons phase phases ih =>
    rw [passCalls, faultCalls, List.flatMap_cons, ← faultCalls]
    dsimp only
    rw [ih, wrongWords_congr (reads phase m)]

theorem passCalls_filter {σ : Type} {env : Env σ} {f : Fault} {config : NxmtRunConfig}
    {start count : Nat} {keep : NxmtPhase → Bool}
    (reads : ∀ phase, keep phase = true → ∀ m, ∀ w ∈ List.range' start count,
      env.device.view (phaseMemory env start count config phase m) w =
        f phase w (expectedWord config.seed phase config.pass w))
    (phases : List NxmtPhase) (m : σ) :
    ((passCalls env start count config phases m).1.filter fun c => keep c.phase) =
      faultCalls f config (phases.filter keep) (List.range' start count) := by
  induction phases generalizing m with
  | nil => rfl
  | cons phase phases ih =>
    have same : ∀ contents, ∀ c ∈ wrongWords config phase (List.range' start count) contents,
        keep c.phase = keep phase := by
      intro contents c hc
      obtain ⟨w, -, -, rfl⟩ := mem_wrongWords.1 hc
      rfl
    rw [passCalls]
    dsimp only
    rw [List.filter_append, ih]
    by_cases kept : keep phase = true
    · have whole : ∀ ws, faultCalls f config (phase :: phases.filter keep) ws = _ ++
          faultCalls f config (phases.filter keep) ws := fun ws => List.flatMap_cons
      rw [List.filter_cons_of_pos kept, whole, ← wrongWords_congr (reads phase kept m),
        List.filter_eq_self.2]
      exact fun c hc => (same _ c hc).trans kept
    · rw [List.filter_cons_of_neg kept, List.filter_eq_nil_iff.2, List.nil_append]
      exact fun c hc => same _ c hc ▸ kept

theorem passCalls_fault (f : Fault) (stops : Nat → Bool) {config : NxmtRunConfig}
    (noInject : config.injectMismatch = false) (start count : Nat) (phases : List NxmtPhase)
    (m : Ram) :
    (passCalls ⟨ram, f.corrupt, stops⟩ start count config phases m).1 =
      faultCalls f config phases (List.range' start count) := by
  refine passCalls_eq_faultCalls (fun phase m w hw => ?_) phases m
  have some : count > 0 := by
    have := List.mem_range'_1.1 hw
    omega
  simp only [phaseMemory, noInject, some, Bool.false_eq_true, false_and, if_false, if_true,
    ram_view, Fault.corrupt]
  have stored := view_storeWords ram ram_readsBack (List.range' start count)
    (expectedWord config.seed phase config.pass) m w
  rw [if_pos hw, ram_view] at stored
  rw [stored]

theorem passCalls_readsBack {σ : Type} {d : Device σ} {g : Nat → Word → Word}
    (h : d.ReadsBack g) (stops : Nat → Bool) {config : NxmtRunConfig}
    (noInject : config.injectMismatch = false) (start count : Nat) (phases : List NxmtPhase)
    (m : σ) :
    (passCalls ⟨d, fun _ m => m, stops⟩ start count config phases m).1 =
      faultCalls (fun _ => g) config phases (List.range' start count) := by
  refine passCalls_eq_faultCalls (fun phase m w hw => ?_) phases m
  simp only [phaseMemory, noInject, Bool.false_eq_true, false_and, if_false, ite_self]
  rw [view_storeWords d h, if_pos hw]

end NxMemTest
