import Mathlib.Data.List.Range
import Mathlib.Data.List.Flatten
import Mathlib.Tactic.Ring

/-! Cutting `[0, n)` into `W` consecutive blocks as evenly as possible: the
first `n % W` blocks are one longer than the others. -/

namespace NxMemTest.Partition

def start (n W i : Nat) : Nat := n / W * i + min i (n % W)

def size (n W i : Nat) : Nat := n / W + if i < n % W then 1 else 0

@[simp] theorem start_zero (n W : Nat) : start n W 0 = 0 := by simp [start]

theorem start_succ (n W i : Nat) : start n W i + size n W i = start n W (i + 1) := by
  simp only [start, size, Nat.mul_succ]
  split <;> omega

theorem start_self {n W : Nat} (hW : 0 < W) : start n W W = n := by
  have rem := Nat.mod_lt n hW
  have div := Nat.div_add_mod n W
  rw [start, Nat.min_eq_right rem.le, Nat.mul_comm]
  exact div

@[simp] theorem size_one (n : Nat) : size n 1 0 = n := by simp [size, Nat.mod_one]

theorem start_mono (n W : Nat) {i j : Nat} (h : i ≤ j) : start n W i ≤ start n W j := by
  induction j, h using Nat.le_induction with
  | base => exact le_rfl
  | succ j _ ih => exact ih.trans (by rw [← start_succ]; omega)

theorem start_le {n W i : Nat} (hi : i ≤ W) (hW : 0 < W) : start n W i ≤ n := by
  have h := start_mono n W hi
  rwa [start_self hW] at h

theorem end_le {n W i : Nat} (hi : i < W) : start n W i + size n W i ≤ n := by
  rw [start_succ]
  exact start_le hi (Nat.zero_lt_of_lt hi)

theorem size_le {n W i : Nat} (hi : i < W) : size n W i ≤ n := by
  have h := end_le (n := n) hi
  omega

theorem size_le_succ (n W i j : Nat) : size n W i ≤ size n W j + 1 := by
  simp only [size]
  split <;> split <;> omega

theorem size_antitone (n W : Nat) {i j : Nat} (h : i ≤ j) : size n W j ≤ size n W i := by
  simp only [size]
  split <;> split <;> omega

theorem block_unique {n W i j x : Nat} (hi : start n W i ≤ x) (hi' : x < start n W i + size n W i)
    (hj : start n W j ≤ x) (hj' : x < start n W j + size n W j) : i = j := by
  rw [start_succ] at hi' hj'
  by_contra ne
  rcases Nat.lt_or_gt_of_ne ne with lt | lt
  · have h := start_mono n W (show _ + 1 ≤ _ from lt)
    omega
  · have h := start_mono n W (show _ + 1 ≤ _ from lt)
    omega

theorem exists_block {n W k x : Nat} (h : x < start n W k) :
    ∃ i < k, start n W i ≤ x ∧ x < start n W i + size n W i := by
  induction k with
  | zero => simp at h
  | succ k ih =>
    by_cases hx : x < start n W k
    · obtain ⟨i, hi, hx⟩ := ih hx
      exact ⟨i, by omega, hx⟩
    · exact ⟨k, by omega, by omega, by rw [start_succ]; exact h⟩

theorem exists_block_of_lt {n W x : Nat} (hW : 0 < W) (h : x < n) :
    ∃ i < W, start n W i ≤ x ∧ x < start n W i + size n W i :=
  exists_block (by rwa [start_self hW])

theorem flatMap_blocks (n W k : Nat) :
    (List.range k).flatMap (fun i => List.range' (start n W i) (size n W i)) =
      List.range (start n W k) := by
  induction k with
  | zero => simp
  | succ k ih =>
    rw [List.range_succ, List.flatMap_append, ih, List.flatMap_singleton, ← start_succ,
      List.range_eq_range', List.range_eq_range', List.range'_append_1.symm, Nat.zero_add]

theorem sum_size (n W k : Nat) : ((List.range k).map (size n W)).sum = start n W k := by
  have length := congrArg List.length (flatMap_blocks n W k)
  simpa only [List.length_flatMap, List.length_range', List.length_range] using length

end NxMemTest.Partition
