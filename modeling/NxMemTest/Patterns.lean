import NxMemTest.Types
import Mathlib.Tactic.IntervalCases

/-! `source/core/patterns.c`: the word every phase expects at every offset. -/

namespace NxMemTest

def nxmtMix64 (value : Word) : Word :=
  let value := value + 0x9e3779b97f4a7c15
  let value := (value ^^^ (value >>> 30)) * 0xbf58476d1ce4e5b9
  let value := (value ^^^ (value >>> 27)) * 0x94d049bb133111eb
  value ^^^ (value >>> 31)

/-- `__builtin_bswap64`: byte `j` of the result is byte `7 - j` of the argument. -/
def bswap64 (x : Word) : Word :=
  x.extractLsb' 0 8 ++ x.extractLsb' 8 8 ++ x.extractLsb' 16 8 ++ x.extractLsb' 24 8 ++
    x.extractLsb' 32 8 ++ x.extractLsb' 40 8 ++ x.extractLsb' 48 8 ++ x.extractLsb' 56 8

def nxmtExpectedValue (seed : Word) (phase : NxmtPhase) (pass offset : Word) : Word :=
  let wordIndex := offset / BitVec.ofNat 64 nxmtWordBytes
  match phase with
  | .fixedA => 0xaaaaaaaaaaaaaaaa
  | .fixed5 => 0x5555555555555555
  | .checker => if wordIndex &&& 1 ≠ 0 then 0x5555555555555555 else 0xaaaaaaaaaaaaaaaa
  | .address => offset ^^^ seed ^^^ (pass * 0x100000001b3)
  | .random => bswap64 wordIndex ^^^ seed ^^^ (pass * 0x9e3779b97f4a7c15)
  | .walking => 1#64 <<< ((wordIndex + pass) &&& 63)
  | .narrow =>
    let X := (offset + pass * 8) &&& 0xff
    (X * 0x0101010101010101) ^^^ 0x0706050403020100 ^^^ seed
  | .bitspread => if (wordIndex + pass) &&& 1 ≠ 0 then 0xb6db6db6db6db6db else 0x4924924924924924
  | .stream => (offset &&& 0x1fff) ^^^ seed ^^^ (pass * 0xbf58476d1ce4e5b9)

theorem getLsbD_bswap64 (x : Word) {j r : Nat} (hj : j < 8) (hr : r < 8) :
    (bswap64 x).getLsbD (8 * j + r) = x.getLsbD (8 * (7 - j) + r) := by
  interval_cases j <;>
    simp only [bswap64, BitVec.getLsbD_append, BitVec.getLsbD_extractLsb'] <;> grind

theorem bswap64_bswap64 (x : Word) : bswap64 (bswap64 x) = x := by
  apply BitVec.eq_of_getLsbD_eq
  intro i hi
  have split : 8 * (i / 8) + i % 8 = i := Nat.div_add_mod i 8
  have back : 8 * (7 - (7 - i / 8)) + i % 8 = i := by omega
  have low : i % 8 < 8 := Nat.mod_lt i (by decide)
  rw [← split, getLsbD_bswap64 _ (by omega) low, getLsbD_bswap64 _ (by omega) low, back, split]

theorem bswap64_injective : Function.Injective bswap64 :=
  Function.LeftInverse.injective bswap64_bswap64

example : bswap64 0x0102030405060708 = 0x0807060504030201 := by decide

end NxMemTest
