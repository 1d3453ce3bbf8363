import Mathlib.Data.BitVec
import Mathlib.Data.Finite.Defs
import Mathlib.Data.Fintype.Card
import Mathlib.Data.Fintype.EquivFin
import NxMemTest.Lib.Loop

/-! Steps that mix a word of `w` bits without losing any of it: sums with a
constant, products with an odd constant, and a word XORed with a shift of itself. -/

namespace NxMemTest.Mixing
variable {w : Nat}

theorem bijective_of_injective {f : BitVec w → BitVec w} (h : Function.Injective f) :
    Function.Bijective f := by
  have finite : Finite (BitVec w) :=
    Finite.of_injective BitVec.toFin fun _ _ same => BitVec.eq_of_toFin_eq same
  exact Finite.injective_iff_bijective.1 h

theorem add_const (c : BitVec w) : Function.Bijective fun x : BitVec w => x + c :=
  bijective_of_injective fun _ _ same => (BitVec.add_left_inj c).1 same

theorem mul_const {c inverse : BitVec w} (one : c * inverse = 1#w) :
    Function.Bijective fun x : BitVec w => x * c := by
  refine bijective_of_injective (Function.LeftInverse.injective (g := (· * inverse)) fun x => ?_)
  dsimp only
  rw [BitVec.mul_assoc, one, BitVec.mul_one]

theorem eq_zero_of_ushiftRight {x : BitVec w} {k : Nat} (pos : 0 < k) (h : x = x >>> k) :
    x = 0#w := by
  apply BitVec.eq_of_toNat_eq
  have value := congrArg BitVec.toNat h
  rw [BitVec.toNat_ushiftRight, Nat.shiftRight_eq_div_pow] at value
  have two : 2 ≤ 2 ^ k := Nat.le_self_pow pos.ne' 2
  by_contra some_left
  have less : x.toNat / 2 ^ k < x.toNat :=
    Nat.div_lt_self (Nat.pos_of_ne_zero some_left) two
  omega

theorem eq_zero_of_shiftLeft {x : BitVec w} {k : Nat} (pos : 0 < k) (h : x = x <<< k) :
    x = 0#w := by
  have bits : ∀ i, x.getLsbD i = false := by
    intro i
    induction i using Nat.strong_induction_on with
    | _ i ih =>
      rw [h, BitVec.getLsbD_shiftLeft]
      by_cases low : i < k
      · simp [low]
      · rw [ih (i - k) (by omega), Bool.and_false]
  apply BitVec.eq_of_getLsbD_eq
  intro i _
  rw [bits i, BitVec.getLsbD_zero]

/-- A word XORed with its image under a map that respects XOR and is the
identity nowhere but at zero. -/
theorem xor_image {S : BitVec w → BitVec w} (additive : ∀ x y, S (x ^^^ y) = S x ^^^ S y)
    (zero_only : ∀ x, x = S x → x = 0#w) : Function.Bijective fun x => x ^^^ S x := by
  refine bijective_of_injective fun x y same => ?_
  have cancel : (x ^^^ y) ^^^ S (x ^^^ y) = 0#w := by
    rw [additive, BitVec.xor_assoc, ← BitVec.xor_assoc y, BitVec.xor_comm y, BitVec.xor_assoc,
      ← BitVec.xor_assoc x]
    exact BitVec.xor_eq_zero_iff.2 same
  exact BitVec.xor_eq_zero_iff.1 (zero_only _ (BitVec.xor_eq_zero_iff.1 cancel))

theorem xor_ushiftRight {k : Nat} (pos : 0 < k) :
    Function.Bijective fun x : BitVec w => x ^^^ (x >>> k) :=
  xor_image (fun x y => BitVec.ushiftRight_xor_distrib x y k) fun _ => eq_zero_of_ushiftRight pos

theorem xor_shiftLeft {k : Nat} (pos : 0 < k) :
    Function.Bijective fun x : BitVec w => x ^^^ (x <<< k) :=
  xor_image (fun x y => BitVec.shiftLeft_xor_distrib x y k) fun _ => eq_zero_of_shiftLeft pos

theorem xor_const (c : BitVec w) : Function.Bijective fun x : BitVec w => c ^^^ x :=
  bijective_of_injective fun _ _ same => (BitVec.xor_right_inj c).1 same

theorem bijective_foldl {α β : Type} {body : β → α → α} (step : ∀ b, Function.Bijective (body b))
    (l : List β) : Function.Bijective fun a => l.foldl (fun a b => body b a) a := by
  induction l with
  | nil => exact Function.bijective_id
  | cons b l ih => exact ih.comp (step b)

theorem bijective_run {α : Type} {body : Nat → α → α} (step : ∀ i, Function.Bijective (body i))
    (s n k : Nat) : Function.Bijective (Loop.run s n k body) :=
  bijective_foldl step _

end NxMemTest.Mixing
