import NxMemTest.ChunkSpec
import NxMemTest.Lib.Mixing

/-! How the patterns of `core/patterns.c` shift from pass to pass: after how
many passes a phase expects the same words again. -/

namespace NxMemTest

def passPeriod : NxmtPhase → Nat
  | .fixedA | .fixed5 | .checker => 1
  | .bitspread => 2
  | .narrow => 32
  | .walking => 64
  | .address | .random | .stream => 2 ^ 64

section
variable (p q x : Word)

theorem pass_mod_eq_iff : p.toNat % 2 ^ 64 = q.toNat % 2 ^ 64 ↔ p = q := by
  rw [Nat.mod_eq_of_lt p.isLt, Nat.mod_eq_of_lt q.isLt, BitVec.toNat_inj]

theorem scaled_pass_inj {c inverse : Word} (one : c * inverse = 1) :
    x ^^^ (p * c) = x ^^^ (q * c) ↔ p = q := by
  rw [BitVec.xor_right_inj]
  exact (Mixing.mul_const one).1.eq_iff

theorem walking_pass_inj :
    1#64 <<< ((x + p) &&& 63) = 1#64 <<< ((x + q) &&& 63) ↔ p.toNat % 64 = q.toNat % 64 := by
  have distance : ∀ y : Word, (1#64 <<< (y &&& 63)).toNat = 2 ^ (y.toNat % 64) := by
    intro y
    have low : (y &&& 63).toNat = y.toNat % 64 := BitWord.toNat_and_low y 6 (by decide)
    have fits : 2 ^ (y.toNat % 64) < 2 ^ 64 :=
      Nat.pow_lt_pow_right (by decide) (Nat.mod_lt _ (by decide))
    rw [BitVec.shiftLeft_eq', low, BitVec.toNat_shiftLeft, Nat.shiftLeft_eq, BitVec.toNat_ofNat,
      Nat.one_mod_two_pow (by decide), Nat.one_mul, Nat.mod_eq_of_lt fits]
  rw [← BitVec.toNat_inj, distance, distance, Nat.pow_right_inj (by decide), BitVec.toNat_add,
    BitVec.toNat_add]
  omega

theorem narrow_pass_inj :
    ((x + p * 8) &&& 0xff) * 0x0101010101010101 = ((x + q * 8) &&& 0xff) * 0x0101010101010101 ↔
      p.toNat % 32 = q.toNat % 32 := by
  have spread := Mixing.mul_const (show (0x0101010101010101 : Word) * 0xffffffffffffff01 = 1 from rfl)
  have low : ∀ y : Word, (y &&& 0xff).toNat = y.toNat % 256 :=
    fun y => BitWord.toNat_and_low y 8 (by decide)
  have eight : (8 : Word).toNat = 8 := rfl
  rw [spread.1.eq_iff, ← BitVec.toNat_inj, low, low, BitVec.toNat_add, BitVec.toNat_add,
    BitVec.toNat_mul, BitVec.toNat_mul, eight]
  omega

theorem bitspread_pass_inj {a b : Word} (ne : a ≠ b) :
    (if (x + p) &&& 1 ≠ 0 then a else b) = (if (x + q) &&& 1 ≠ 0 then a else b) ↔
      p.toNat % 2 = q.toNat % 2 := by
  have parity : ((x + p) &&& 1 ≠ 0 ↔ (x + q) &&& 1 ≠ 0) ↔ p.toNat % 2 = q.toNat % 2 := by
    rw [and_one_ne_zero, and_one_ne_zero, BitVec.toNat_add, BitVec.toNat_add]
    omega
  rw [← parity]
  by_cases hp : (x + p) &&& 1 ≠ 0 <;> by_cases hq : (x + q) &&& 1 ≠ 0
  · rw [if_pos hp, if_pos hq]
    exact iff_of_true rfl (iff_of_true hp hq)
  · rw [if_pos hp, if_neg hq]
    exact iff_of_false ne fun same => hq (same.1 hp)
  · rw [if_neg hp, if_pos hq]
    exact iff_of_false ne.symm fun same => hp (same.2 hq)
  · rw [if_neg hp, if_neg hq]
    exact iff_of_true rfl (iff_of_false hp hq)

end

theorem nxmtExpectedValue_pass_iff (seed offset p q : Word) (phase : NxmtPhase) :
    nxmtExpectedValue seed phase p offset = nxmtExpectedValue seed phase q offset ↔
      p.toNat % passPeriod phase = q.toNat % passPeriod phase := by
  cases phase with
  | fixedA | fixed5 | checker => simp only [nxmtExpectedValue, passPeriod, Nat.mod_one]
  | address =>
    rw [passPeriod, pass_mod_eq_iff]
    exact scaled_pass_inj p q _ (show (0x100000001b3 : Word) * 0xce965057aff6957b = 1 from rfl)
  | random =>
    rw [passPeriod, pass_mod_eq_iff]
    exact scaled_pass_inj p q _ (show (0x9e3779b97f4a7c15 : Word) * 0xf1de83e19937733d = 1 from rfl)
  | stream =>
    rw [passPeriod, pass_mod_eq_iff]
    exact scaled_pass_inj p q _ (show (0xbf58476d1ce4e5b9 : Word) * 0x96de1b173f119089 = 1 from rfl)
  | walking => exact walking_pass_inj p q _
  | narrow =>
    simp only [nxmtExpectedValue, BitVec.xor_left_inj]
    exact narrow_pass_inj p q offset
  | bitspread => exact bitspread_pass_inj p q _ (by decide)

/-- A word left over from another pass reads as correct only a whole period apart. -/
theorem passes_shift_patterns (seed offset p q : Word) :
    (nxmtExpectedValue seed .address p offset = nxmtExpectedValue seed .address q offset ↔ p = q) ∧
      (nxmtExpectedValue seed .random p offset = nxmtExpectedValue seed .random q offset ↔
        p = q) ∧
      (nxmtExpectedValue seed .stream p offset = nxmtExpectedValue seed .stream q offset ↔
        p = q) ∧
      (nxmtExpectedValue seed .walking p offset = nxmtExpectedValue seed .walking q offset ↔
        p.toNat % 64 = q.toNat % 64) ∧
      (nxmtExpectedValue seed .bitspread p offset = nxmtExpectedValue seed .bitspread q offset ↔
        p.toNat % 2 = q.toNat % 2) ∧
      (nxmtExpectedValue seed .narrow p offset = nxmtExpectedValue seed .narrow q offset ↔
        p.toNat % 32 = q.toNat % 32) := by
  have shift := nxmtExpectedValue_pass_iff seed offset p q
  have whole := pass_mod_eq_iff p q
  exact ⟨(shift .address).trans whole, (shift .random).trans whole, (shift .stream).trans whole,
    shift .walking, shift .bitspread, shift .narrow⟩

end NxMemTest
