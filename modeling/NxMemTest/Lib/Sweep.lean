import Mathlib.Data.List.Range
import Mathlib.Data.List.Nodup
import Mathlib.Tactic.Common

/-! Sweeps: values written to a list of addresses, one after another, where a
write may change other addresses than its own. What an address holds afterwards
depends only on what each write does to that address. -/

namespace NxMemTest.Sweep
variable {α β σ : Type}

/-- A write of `v` at `w` makes `effect w v q x` of an `x` that stood at `q`. -/
def Pointwise (read : σ → α → β) (write : σ → α → β → σ) (effect : α → β → α → β → β) : Prop :=
  ∀ m w v q, read (write m w v) q = effect w v q (read m q)

def fold (effect : α → β → α → β → β) (f : α → β) (ws : List α) (q : α) (x : β) : β :=
  ws.foldl (fun x w => effect w (f w) q x) x

theorem read_writes {read : σ → α → β} {write : σ → α → β → σ} {effect : α → β → α → β → β}
    (h : Pointwise read write effect) (f : α → β) (ws : List α) (m : σ) (q : α) :
    read (ws.foldl (fun m w => write m w (f w)) m) q = fold effect f ws q (read m q) := by
  induction ws generalizing m with
  | nil => rfl
  | cons w ws ih => rw [List.foldl_cons, ih, h, fold, fold, List.foldl_cons]

section
variable {effect : α → β → α → β → β} {f : α → β}

theorem fold_append (ws ws' : List α) (q : α) (x : β) :
    fold effect f (ws ++ ws') q x = fold effect f ws' q (fold effect f ws q x) := List.foldl_append

theorem fold_cons (w : α) (ws : List α) (q : α) (x : β) :
    fold effect f (w :: ws) q x = fold effect f ws q (effect w (f w) q x) := rfl

theorem fold_untouched {ws : List α} {q : α} (alone : ∀ w ∈ ws, ∀ x, effect w (f w) q x = x)
    (x : β) : fold effect f ws q x = x := by
  induction ws with
  | nil => rfl
  | cons w ws ih =>
    rw [fold_cons, alone w List.mem_cons_self]
    exact ih fun w hw => alone w (List.mem_cons_of_mem _ hw)

theorem fold_own {ws : List α} {q : α} (nodup : ws.Nodup) (hq : q ∈ ws)
    (alone : ∀ w ∈ ws, w ≠ q → ∀ x, effect w (f w) q x = x) (x : β) :
    fold effect f ws q x = effect q (f q) q x := by
  obtain ⟨before, after, rfl⟩ := List.append_of_mem hq
  have parts := List.nodup_append.1 nodup
  have later : q ∉ after := (List.nodup_cons.1 parts.2.1).1
  rw [fold_append, fold_cons, fold_untouched, fold_untouched]
  · exact fun w hw => alone w (by simp [hw]) (parts.2.2 w hw q List.mem_cons_self)
  · exact fun w hw => alone w (by simp [hw]) fun same => later (same ▸ hw)

end

theorem range'_around {start count q : Nat} (low : start ≤ q) (high : q < start + count) :
    List.range' start count =
      List.range' start (q - start) ++ q :: List.range' (q + 1) (start + count - (q + 1)) := by
  have whole : count = (q - start) + (1 + (start + count - (q + 1))) := by omega
  have turn : start + (q - start) = q := by omega
  conv_lhs => rw [whole, ← List.range'_append_1, turn, Nat.add_comm 1, List.range'_succ]

end NxMemTest.Sweep
