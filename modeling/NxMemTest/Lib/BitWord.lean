import Mathlib.Data.BitVec

/-! Words of `w` bits: low-bit masks as remainders, and the accumulators that
OR or XOR a list of words together. -/

namespace NxMemTest.BitWord
variable {w : Nat}

theorem toNat_and_low (x : BitVec w) (k : Nat) (hk : k ≤ w) :
    (x &&& BitVec.ofNat w (2 ^ k - 1)).toNat = x.toNat % 2 ^ k := by
  have le : 2 ^ k ≤ 2 ^ w := Nat.pow_le_pow_right (by decide) hk
  have pos : 0 < 2 ^ k := Nat.two_pow_pos k
  rw [BitVec.toNat_and, BitVec.toNat_ofNat, Nat.mod_eq_of_lt (by omega),
    Nat.and_two_pow_sub_one_eq_mod]

theorem odd_iff (hw : 0 < w) (x : BitVec w) : x &&& 1 ≠ 0 ↔ x.toNat % 2 = 1 := by
  have value : (x &&& 1).toNat = x.toNat % 2 := toNat_and_low x 1 hw
  constructor
  · intro h
    by_contra even
    have zero : x.toNat % 2 = 0 := by omega
    exact h (BitVec.eq_of_toNat_eq (value.trans (zero.trans BitVec.toNat_zero.symm)))
  · intro odd h
    have zero : (x &&& 1).toNat = 0 := by
      rw [h]
      exact BitVec.toNat_zero
    omega

theorem xor_ne_zero {x y : BitVec w} : x ^^^ y ≠ 0#w ↔ x ≠ y := not_congr BitVec.xor_eq_zero_iff

theorem foldl_or_eq_zero {α : Type} (f : α → BitVec w) (l : List α) (acc : BitVec w) :
    l.foldl (fun acc a => acc ||| f a) acc = 0#w ↔ acc = 0#w ∧ ∀ a ∈ l, f a = 0#w := by
  induction l generalizing acc with
  | nil => simp
  | cons a l ih => simp [ih, BitVec.or_eq_zero_iff, and_assoc]

theorem foldr_or_append (l l' : List (BitVec w)) :
    (l ++ l').foldr (· ||| ·) (0 : BitVec w) =
      l.foldr (· ||| ·) 0 ||| l'.foldr (· ||| ·) 0 := by
  induction l with
  | nil => simp
  | cons x l ih => rw [List.cons_append, List.foldr_cons, ih, List.foldr_cons, BitVec.or_assoc]

theorem getLsbD_foldr_or (l : List (BitVec w)) (i : Nat) :
    (l.foldr (· ||| ·) (0 : BitVec w)).getLsbD i = true ↔ ∃ x ∈ l, x.getLsbD i = true := by
  induction l with
  | nil => simp
  | cons x l ih =>
    rw [List.foldr_cons, BitVec.getLsbD_or, Bool.or_eq_true, ih]
    simp

theorem eq_zero_iff_getLsbD {x : BitVec w} : x = 0#w ↔ ∀ i, x.getLsbD i = false := by
  constructor
  · rintro rfl i
    exact BitVec.getLsbD_zero
  · intro h
    apply BitVec.eq_of_getLsbD_eq
    intro i _
    rw [h i, BitVec.getLsbD_zero]

theorem xor_xor_cancel_left (x y : BitVec w) : x ^^^ (x ^^^ y) = y := by
  rw [← BitVec.xor_assoc, BitVec.xor_self, BitVec.zero_xor]

theorem foldl_xor_out {α : Type} (f : α → BitVec w) (l : List α) (acc : BitVec w) :
    l.foldl (fun acc a => acc ^^^ f a) acc = acc ^^^ l.foldl (fun acc a => acc ^^^ f a) 0#w := by
  induction l generalizing acc with
  | nil => simp
  | cons a l ih =>
    rw [List.foldl_cons, List.foldl_cons, ih, ih (0#w ^^^ f a), BitVec.zero_xor, BitVec.xor_assoc]

theorem foldl_xor_twice {α : Type} (f : α → BitVec w) (l : List α) (acc : BitVec w) :
    l.foldl (fun acc a => acc ^^^ f a) (l.foldl (fun acc a => acc ^^^ f a) acc) = acc := by
  rw [foldl_xor_out f l (l.foldl _ acc), foldl_xor_out f l acc, BitVec.xor_assoc, BitVec.xor_self,
    BitVec.xor_zero]

end NxMemTest.BitWord
