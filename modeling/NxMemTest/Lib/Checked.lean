import Mathlib.Data.BitVec

/-! Arithmetic on words of `w` bits that gives nothing where it would wrap. -/

namespace NxMemTest.Checked
variable {w : Nat} {x y : BitVec w}

def add (x y : BitVec w) : Option (BitVec w) :=
  if x.toNat + y.toNat < 2 ^ w then some (x + y) else none

def sub (x y : BitVec w) : Option (BitVec w) := if y ≤ x then some (x - y) else none

def mul (x y : BitVec w) : Option (BitVec w) :=
  if x.toNat * y.toNat < 2 ^ w then some (x * y) else none

theorem add_eq (fits : x.toNat + y.toNat < 2 ^ w) : add x y = some (x + y) := if_pos fits

theorem sub_eq (le : y ≤ x) : sub x y = some (x - y) := if_pos le

theorem mul_eq (fits : x.toNat * y.toNat < 2 ^ w) : mul x y = some (x * y) := if_pos fits

end NxMemTest.Checked
