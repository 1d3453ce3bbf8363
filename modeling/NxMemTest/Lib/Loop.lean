import Mathlib.Data.List.Range
import Mathlib.Data.List.Flatten
import Mathlib.Tactic.Common

/-! Counted loops `for (; k + s <= n; k += s)` as folds over the values their
counter takes. An unrolled loop followed by its tail is the plain loop. -/

namespace NxMemTest.Loop
variable {σ : Type}

/-- The counter values of `for (; k + s <= n; k += s)` entered at `k`. -/
def counters (s n k : Nat) : List Nat := List.range' k ((n - k) / s) s

def exit (s n k : Nat) : Nat := k + s * ((n - k) / s)

def run (s n k : Nat) (body : Nat → σ → σ) (m : σ) : σ :=
  (counters s n k).foldl (fun m k => body k m) m

theorem counters_step {s n k : Nat} (hs : 0 < s) (h : k + s ≤ n) :
    counters s n k = k :: counters s n (k + s) := by
  have count : (n - k) / s = (n - (k + s)) / s + 1 := by
    rw [Nat.sub_add_eq, Nat.div_eq_sub_div hs (by omega)]
  rw [counters, count, List.range'_succ]
  rfl

theorem counters_stop {s n k : Nat} (hs : 0 < s) (h : n < k + s) : counters s n k = [] := by
  have count : (n - k) / s = 0 := Nat.div_eq_of_lt (by omega)
  rw [counters, count, List.range'_zero]

theorem run_step {s n k : Nat} (body : Nat → σ → σ) (m : σ) (hs : 0 < s) (h : k + s ≤ n) :
    run s n k body m = run s n (k + s) body (body k m) := by
  rw [run, counters_step hs h]
  rfl

theorem run_stop {s n k : Nat} (body : Nat → σ → σ) (m : σ) (hs : 0 < s) (h : n < k + s) :
    run s n k body m = m := by
  rw [run, counters_stop hs h]
  rfl

@[simp] theorem counters_one (n k : Nat) : counters 1 n k = List.range' k (n - k) := by
  rw [counters, Nat.div_one]

theorem run_one (n : Nat) (body : Nat → σ → σ) (m : σ) :
    run 1 n 0 body m = (List.range n).foldl (fun m k => body k m) m := by
  rw [run, counters_one, Nat.sub_zero, List.range_eq_range']

theorem run_congr {s n k : Nat} (body body' : Nat → σ → σ)
    (h : ∀ j ∈ counters s n k, ∀ m, body j m = body' j m) (m : σ) :
    run s n k body m = run s n k body' m :=
  List.foldl_ext _ _ _ fun m j hj => h j hj m

theorem run_rel {τ : Type} {s n k : Nat} (hs : 0 < s) (body : Nat → σ → σ) (body' : Nat → τ → τ)
    (P : Nat → σ → τ → Prop) {m : σ} {m' : τ} (start : P k m m')
    (step : ∀ j m m', j + s ≤ n → P j m m' → P (j + s) (body j m) (body' j m')) :
    P (exit s n k) (run s n k body m) (run s n k body' m') := by
  have turns : ∀ c j m m', j + s * c ≤ max n j → P j m m' →
      P (j + s * c) ((List.range' j c s).foldl (fun m k => body k m) m)
        ((List.range' j c s).foldl (fun m k => body' k m) m') := by
    intro c
    induction c with
    | zero => exact fun j m m' _ h => h
    | succ c ih =>
      intro j m m' fits h
      rw [Nat.mul_succ] at fits ⊢
      rw [List.range'_succ, List.foldl_cons, List.foldl_cons, Nat.add_comm (s * c), ← Nat.add_assoc]
      exact ih (j + s) _ _ (by omega) (step j m m' (by omega) h)
  have top : s * ((n - k) / s) ≤ n - k := Nat.mul_div_le _ _
  exact turns _ k m m' (by omega) start

theorem flatMap_counters (s n k : Nat) :
    (counters s n k).flatMap (fun j => List.range' j s) ++
        List.range' (exit s n k) (n - exit s n k) = List.range' k (n - k) := by
  have blocks : ∀ c j, (List.range' j c s).flatMap (fun i => List.range' i s) =
      List.range' j (s * c) := by
    intro c
    induction c with
    | zero => simp
    | succ c ih =>
      intro j
      rw [List.range'_succ, List.flatMap_cons, ih, List.range'_append_1, Nat.mul_succ,
        Nat.add_comm s]
  have fits : s * ((n - k) / s) ≤ n - k := Nat.mul_div_le _ _
  rw [counters, blocks, exit, List.range'_append_1]
  congr 1
  omega

theorem run_unroll {s n k : Nat} (body : Nat → σ → σ) (block : Nat → σ → σ)
    (hblock : ∀ j m, j + s ≤ n → block j m = (List.range' j s).foldl (fun m i => body i m) m)
    (m : σ) : run 1 n (exit s n k) body (run s n k block m) = run 1 n k body m := by
  have inside : ∀ j ∈ counters s n k, j + s ≤ n := by
    intro j hj
    obtain ⟨i, hi, rfl⟩ := List.mem_range'.1 hj
    have top : s * ((n - k) / s) ≤ n - k := Nat.mul_div_le _ _
    have turn : s * (i + 1) ≤ s * ((n - k) / s) := Nat.mul_le_mul_left _ hi
    rw [Nat.mul_succ] at turn
    rcases Nat.eq_zero_or_pos s with rfl | hs
    · simp at hi
    · omega
  have fold : ∀ l : List Nat, (∀ j ∈ l, j + s ≤ n) → ∀ m,
      l.foldl (fun m j => block j m) m =
        (l.flatMap fun j => List.range' j s).foldl (fun m i => body i m) m := by
    intro l
    induction l with
    | nil => intro _ m; rfl
    | cons j l ih =>
      intro hl m
      rw [List.foldl_cons, List.flatMap_cons, List.foldl_append,
        hblock j m (hl j List.mem_cons_self), ih fun i hi => hl i (List.mem_cons_of_mem _ hi)]
  simp only [run, counters_one]
  rw [fold _ inside, ← List.foldl_append, flatMap_counters]

theorem run_pairs (n k : Nat) (body : Nat → σ → σ) (m : σ) :
    (if exit 2 n k < n then body (exit 2 n k) (run 2 n k (fun j m => body (j + 1) (body j m)) m)
      else run 2 n k (fun j m => body (j + 1) (body j m)) m) = run 1 n k body m := by
  have last : n < exit 2 n k + 1 + 1 := by
    simp only [exit]
    omega
  have unroll := run_unroll (s := 2) (n := n) (k := k) body
    (fun j m => body (j + 1) (body j m)) (fun _ _ _ => rfl) m
  rw [← unroll]
  split
  · rename_i more
    rw [run_step _ _ Nat.one_pos more, run_stop _ _ Nat.one_pos last]
  · rename_i none
    rw [run_stop _ _ Nat.one_pos (by omega)]

end NxMemTest.Loop
