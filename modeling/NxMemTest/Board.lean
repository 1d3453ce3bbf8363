import NxMemTest.PassTrace
import NxMemTest.VerifySpec

/-! A worker at its memory: the device it works on, what befalls the memory
between the two halves of a phase, and the answers its polls get. -/

namespace NxMemTest
open Interaction Program

/-- `corrupt` strikes once after the write half of a phase, before the verify
half; poll number `k` of the stop flag reads `stops k`. -/
structure Env (σ : Type) where
  device : Device σ
  corrupt : NxmtPhase → σ → σ
  stops : Nat → Bool

/-- What belongs to one worker alone: its polls so far, its progress counter and
whether it has written since it last verified. -/
structure Seat where
  polls : Nat
  progress : Word
  dirty : Bool
  deriving DecidableEq, Repr

structure Board (σ : Type) where
  memory : σ
  seat : Seat

namespace Env
variable {σ : Type}

def serve (env : Env σ) : (c : Call) → Board σ → Call.Answer c × Board σ
  | .stopRequested, b =>
    (env.stops b.seat.polls, { b with seat := { b.seat with polls := b.seat.polls + 1 } })
  | .writeChunk p n s phase seed pass, b =>
    ((), ⟨nxmtWriteChunk env.device p n (BitVec.ofNat 64 s) phase seed pass b.memory,
      { b.seat with dirty := true }⟩)
  | .verifyChunk p n s phase config, b =>
    let memory := if b.seat.dirty then env.corrupt phase b.memory else b.memory
    let (calls, memory) :=
      nxmtVerifyChunk env.device p n (BitVec.ofNat 64 s) phase config memory
    (calls, ⟨memory, { b.seat with dirty := false }⟩)
  | .load p, b =>
    let (value, memory) := env.device.load b.memory p
    (value, { b with memory := memory })
  | .store p value, b => ((), { b with memory := env.device.store b.memory p value })
  | .progressAdd delta, b =>
    ((), { b with seat := { b.seat with progress := b.seat.progress + delta } })

def unstopped (env : Env σ) : Env σ := { env with stops := fun _ => false }

end Env

/-! ### A chunk records at most one mismatch a word -/

section
variable {σ : Type} (d : Device σ)

theorem walkWords_length_le (p n : Nat) (baseOff : Word) (phase : NxmtPhase)
    (config : NxmtRunConfig) (expected : Nat → Word) (m : σ) :
    (walkWords d p n baseOff phase config expected m).1.length ≤ n := by
  have step : ∀ k (s : List RecordCall × σ),
      (walkWord d p baseOff phase config expected k s).1.length ≤ s.1.length + 1 := by
    intro k s
    simp only [walkWord]
    split <;> simp
  have fold : ∀ (l : List Nat) (s : List RecordCall × σ),
      (l.foldl (fun s k => walkWord d p baseOff phase config expected k s) s).1.length ≤
        s.1.length + l.length := by
    intro l
    induction l with
    | nil => simp
    | cons k l ih =>
      intro s
      have rest := ih (walkWord d p baseOff phase config expected k s)
      have turn := step k s
      rw [List.foldl_cons, List.length_cons]
      omega
  rw [walkWords, Loop.run_one]
  simpa using fold (List.range n) ([], m)

theorem ite_length_le {n : Nat} {c : Prop} [Decidable c] {a b : List RecordCall × σ}
    (ha : a.1.length ≤ n) (hb : b.1.length ≤ n) : (if c then a else b).1.length ≤ n := by
  split
  · exact ha
  · exact hb

theorem nxmtVerifyChunk_length_le (p n : Nat) (startWord : Word) (phase : NxmtPhase)
    (config : NxmtRunConfig) (m : σ) :
    (nxmtVerifyChunk d p n startWord phase config m).1.length ≤ n := by
  have walk := fun baseOff phase expected m =>
    walkWords_length_le d p n baseOff phase config expected m
  have none : ∀ m : σ, (([], m) : List RecordCall × σ).1.length ≤ n := fun _ => Nat.zero_le n
  unfold nxmtVerifyChunk
  cases phase with
  | fixedA | fixed5 | stream => exact ite_length_le (walk _ _ _ _) (none _)
  | checker | address | random | narrow | bitspread => exact ite_length_le (none _) (walk _ _ _ _)
  | walking => exact walk _ _ _ _

end

theorem nxmtPhasesForMode_length_le (mode : NxmtMode) : (nxmtPhasesForMode mode).length ≤ 8 := by
  cases mode <;> decide

theorem records_length_le {t : List (Event Call.Answer)}
    (honest : ∀ e ∈ t, (recorded e).length ≤ (verified e).length) :
    (records t).length ≤ (verifiedWords t).length := by
  induction t with
  | nil => simp [records]
  | cons e t ih =>
    have head := honest e List.mem_cons_self
    have rest := ih fun e he => honest e (List.mem_cons_of_mem _ he)
    simp only [records_cons, verifiedWords_cons, List.length_append]
    omega

theorem Env.serve_answer_honest {σ : Type} (env : Env σ) (b : Board σ) {e : Event Call.Answer}
    (answer : e.2 = (env.serve e.1 b).1) : (recorded e).length ≤ (verified e).length := by
  obtain ⟨c, r⟩ := e
  cases c with
  | verifyChunk p n s phase config =>
    have le := nxmtVerifyChunk_length_le env.device p n (BitVec.ofNat 64 s) phase config
      (if b.seat.dirty then env.corrupt phase b.memory else b.memory)
    dsimp only at answer
    simp only [recorded, verified, answer, List.length_map, List.length_range', Env.serve]
    exact le
  | stopRequested | writeChunk | load | store | progressAdd => simp [recorded]

theorem Env.serve_honest {σ : Type} (env : Env σ) {α : Type} (p : Runner α) (b : Board σ) :
    ∀ e ∈ trace env.serve p b, (recorded e).length ≤ (verified e).length := by
  intro e he
  obtain ⟨b', answer⟩ := mem_trace env.serve he
  exact env.serve_answer_honest b' answer

theorem PhasesRan.few {start count : Nat} {initialErrors : Word} {mode : NxmtMode}
    {report : NxmtReport} {stats : NxmtRunStats} {t : List (Event Call.Answer)}
    {out : PassResult} {finished : Bool}
    (ran : PhasesRan start count initialErrors (nxmtPhasesForMode mode) report stats t out finished)
    (honest : ∀ e ∈ t, (recorded e).length ≤ (verified e).length) (small : count < 2 ^ 61) :
    (records t).length < 2 ^ 64 := by
  have len := ran.verified_prefix.length_le
  rw [phaseWords_length] at len
  have le := records_length_le honest
  have turns : (nxmtPhasesForMode mode).length * count ≤ 8 * count :=
    Nat.mul_le_mul_right count (nxmtPhasesForMode_length_le mode)
  omega

theorem sliceCount_lt {arena : NxmtArena} {config : NxmtRunConfig} (ok : Accepts arena config)
    (small : arena.words.toNat < 2 ^ 61) : sliceCount arena config < 2 ^ 61 := by
  rw [sliceCount, nxmtSplitBlockSize_toNat _ _ _ ok.worker]
  exact (Partition.size_le (BitVec.lt_def.1 ok.worker)).trans_lt small

end NxMemTest
