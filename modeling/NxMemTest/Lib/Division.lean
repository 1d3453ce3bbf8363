import Mathlib.Tactic.Ring
import Mathlib.Tactic.Linarith

/-! Numbers kept as a quotient and a remainder of one divisor. Sums are formed
without multiplying out: the remainders are added and at most one is carried. -/

namespace NxMemTest

structure Divides (d n q r : Nat) : Prop where
  value : q * d + r = n
  lt : r < d

namespace Divides
variable {d n m q r s t : Nat}

theorem quotient_eq (h : Divides d n q r) : n / d = q := by
  rw [← h.value, Nat.mul_comm, Nat.mul_add_div (Nat.zero_lt_of_lt h.lt), Nat.div_eq_of_lt h.lt,
    Nat.add_zero]

theorem of_lt (h : n < d) : Divides d n 0 n := ⟨by omega, h⟩

theorem add (h : Divides d n q r) (h' : Divides d m s t) (small : t < d - r) :
    Divides d (n + m) (q + s) (r + t) := by
  refine ⟨?_, by omega⟩
  rw [← h.value, ← h'.value]
  ring

theorem add_carry (h : Divides d n q r) (h' : Divides d m s t) (large : d - r ≤ t) :
    Divides d (n + m) (q + s + 1) (t - (d - r)) := by
  have below := h.lt
  have below' := h'.lt
  refine ⟨?_, by omega⟩
  have carry : t - (d - r) + d = r + t := by omega
  rw [← h.value, ← h'.value]
  linarith

end Divides
end NxMemTest
