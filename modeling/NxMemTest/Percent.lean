import NxMemTest.Types
import NxMemTest.Lib.BitWord
import NxMemTest.Lib.Division
import NxMemTest.Lib.Checked

/-! `nxmt_percent_milli` of `core/arena.c`. The remainder is scaled by doubling and
adding, on quotients and remainders only, so that no product is formed. -/

namespace NxMemTest

/-- Add a term, as quotient and remainder, to the sum. -/
def addTerm (denominator : Word) (term sum : Word × Word) : Word × Word :=
  let quotient := sum.1 + term.1
  if term.2 ≠ 0 then
    if term.2 ≥ denominator - sum.2 then (quotient + 1, term.2 - (denominator - sum.2))
    else (quotient, sum.2 + term.2)
  else (quotient, sum.2)

def doubleTerm (denominator : Word) (term : Word × Word) : Word × Word :=
  let quotient := term.1 * 2
  if term.2 ≥ denominator - term.2 then (quotient + 1, term.2 - (denominator - term.2))
  else (quotient, term.2 + term.2)

theorem uint64Max_toNat : uint64Max.toNat = 2 ^ 64 - 1 := BitVec.toNat_allOnes

theorem shift_lt {scale : Word} (some_left : scale ≠ 0) : (scale >>> 1).toNat < scale.toNat := by
  have pos : scale.toNat ≠ 0 := fun zero => some_left (BitVec.eq_of_toNat_eq zero)
  rw [BitVec.toNat_ushiftRight, Nat.shiftRight_eq_div_pow]
  omega

/-- The loop of `scaled_remainder_term`; sum and term are quotient and remainder. -/
def scaledRemainderLoop (denominator : Word) (sum term : Word × Word) (scale : Word) : Word :=
  if scale ≠ 0 then
    if scale &&& 1 ≠ 0 ∧ sum.1 + term.1 = uint64Max then uint64Max
    else
      let sum := if scale &&& 1 ≠ 0 then addTerm denominator term sum else sum
      if scale >>> 1 = 0 then sum.1
      else scaledRemainderLoop denominator sum (doubleTerm denominator term) (scale >>> 1)
  else sum.1
termination_by scale.toNat
decreasing_by exact shift_lt ‹scale ≠ 0›

def scaledRemainderTerm (remainder denominator scale : Word) : Word :=
  scaledRemainderLoop denominator (0, 0) (0, remainder) scale

def checkedCarry (denominator quotient remainder part : Word) : Option (Word × Word) := do
  let gap ← Checked.sub denominator remainder
  if part ≥ gap then do
    let quotient ← Checked.add quotient 1
    let remainder ← Checked.sub part gap
    some (quotient, remainder)
  else do
    let remainder ← Checked.add remainder part
    some (quotient, remainder)

/-- `addTerm` where nothing wraps and the early exit is not taken. -/
def checkedAddTerm (denominator : Word) (term sum : Word × Word) : Option (Word × Word) := do
  let quotient ← Checked.add sum.1 term.1
  if quotient = uint64Max then none
  else if term.2 ≠ 0 then checkedCarry denominator quotient sum.2 term.2
  else some (quotient, sum.2)

def checkedDoubleTerm (denominator : Word) (term : Word × Word) : Option (Word × Word) := do
  let quotient ← Checked.mul term.1 2
  checkedCarry denominator quotient term.2 term.2

/-- The loop of `scaled_remainder_term` with every step checked: it gives nothing as
soon as a step wraps or the early exit is taken. -/
def checkedRemainderLoop (denominator : Word) (sum term : Word × Word) (scale : Word) :
    Option Word :=
  if scale ≠ 0 then do
    let sum ← (if scale &&& 1 ≠ 0 then checkedAddTerm denominator term sum else some sum)
    if scale >>> 1 = 0 then some sum.1
    else do
      let term ← checkedDoubleTerm denominator term
      checkedRemainderLoop denominator sum term (scale >>> 1)
  else some sum.1
termination_by scale.toNat
decreasing_by exact shift_lt ‹scale ≠ 0›

def checkedRemainderTerm (remainder denominator scale : Word) : Option Word :=
  checkedRemainderLoop denominator (0, 0) (0, remainder) scale

def nxmtPercentMilli (numerator denominator : Word) : Word :=
  let scale : Word := 100000
  if denominator = 0 then 0
  else
    let whole := numerator / denominator
    let remainder := numerator % denominator
    if whole > uint64Max / scale then uint64Max
    else
      let wholeScaled := whole * scale
      let remainderScaled := scaledRemainderTerm remainder denominator scale
      if wholeScaled > uint64Max - remainderScaled then uint64Max
      else wholeScaled + remainderScaled

def Splits (denominator : Word) (n : Nat) (pair : Word × Word) : Prop :=
  Divides denominator.toNat n pair.1.toNat pair.2.toNat

section
variable {denominator : Word} {n m : Nat} {sum term : Word × Word}

theorem checkedCarry_splits (hs : Splits denominator n sum) (ht : Splits denominator m term)
    (fits : (n + m) / denominator.toNat < 2 ^ 64) :
    let pair := if term.2 ≥ denominator - sum.2
      then (sum.1 + term.1 + 1, term.2 - (denominator - sum.2))
      else (sum.1 + term.1, sum.2 + term.2)
    checkedCarry denominator (sum.1 + term.1) sum.2 term.2 = some pair ∧
      Splits denominator (n + m) pair := by
  intro pair
  have below : sum.2.toNat < denominator.toNat := hs.lt
  have le : sum.2 ≤ denominator := BitVec.le_def.2 below.le
  have gap : (denominator - sum.2).toNat = denominator.toNat - sum.2.toNat :=
    BitVec.toNat_sub_of_le le
  simp only [checkedCarry, Checked.sub_eq le, Option.bind_eq_bind, Option.bind_some]
  by_cases large : term.2 ≥ denominator - sum.2
  · have reach : denominator.toNat - sum.2.toNat ≤ term.2.toNat := gap ▸ BitVec.le_def.1 large
    have whole := hs.add_carry ht reach
    rw [whole.quotient_eq] at fits
    have one : (1 : Word).toNat = 1 := rfl
    have before : (sum.1 + term.1).toNat = sum.1.toNat + term.1.toNat := by
      rw [BitVec.toNat_add]
      omega
    have quotient : (sum.1 + term.1 + 1).toNat = sum.1.toNat + term.1.toNat + 1 := by
      rw [BitVec.toNat_add, before, one]
      omega
    have remainder : (term.2 - (denominator - sum.2)).toNat =
        term.2.toNat - (denominator.toNat - sum.2.toNat) := by
      rw [BitVec.toNat_sub_of_le large, gap]
    have room : (sum.1 + term.1).toNat + (1 : Word).toNat < 2 ^ 64 := by
      rw [before, one]
      exact fits
    simp only [pair, if_pos large, Checked.add_eq room, Checked.sub_eq large, Option.bind_some]
    rw [Splits, quotient, remainder]
    exact ⟨trivial, whole⟩
  · have short : term.2.toNat < denominator.toNat - sum.2.toNat := by
      rw [ge_iff_le, BitVec.not_le, BitVec.lt_def, gap] at large
      exact large
    have whole := hs.add ht short
    rw [whole.quotient_eq] at fits
    have quotient : (sum.1 + term.1).toNat = sum.1.toNat + term.1.toNat := by
      rw [BitVec.toNat_add, Nat.mod_eq_of_lt fits]
    have room : sum.2.toNat + term.2.toNat < 2 ^ 64 := by
      have top := denominator.isLt
      omega
    have remainder : (sum.2 + term.2).toNat = sum.2.toNat + term.2.toNat := by
      rw [BitVec.toNat_add, Nat.mod_eq_of_lt room]
    simp only [pair, if_neg large, Checked.add_eq room, Option.bind_some]
    rw [Splits, quotient, remainder]
    exact ⟨trivial, whole⟩

theorem quotients_le (hs : Splits denominator n sum) (ht : Splits denominator m term) :
    sum.1.toNat + term.1.toNat ≤ (n + m) / denominator.toNat := by
  have le : n / denominator.toNat + m / denominator.toNat ≤ (n + m) / denominator.toNat :=
    Nat.div_add_div_le_add_div
  rwa [hs.quotient_eq, ht.quotient_eq] at le

/-- The early exit is never taken while the quotient of the sum stays below the maximum. -/
theorem no_early_exit (hs : Splits denominator n sum) (ht : Splits denominator m term)
    (fits : (n + m) / denominator.toNat < 2 ^ 64 - 1) : sum.1 + term.1 ≠ uint64Max := by
  intro exit
  have value := congrArg BitVec.toNat exit
  have le := quotients_le hs ht
  rw [BitVec.toNat_add, uint64Max_toNat] at value
  omega

theorem checkedAddTerm_splits (hs : Splits denominator n sum) (ht : Splits denominator m term)
    (fits : (n + m) / denominator.toNat < 2 ^ 64 - 1) :
    checkedAddTerm denominator term sum = some (addTerm denominator term sum) ∧
      Splits denominator (n + m) (addTerm denominator term sum) := by
  have carried := checkedCarry_splits hs ht (by omega)
  have room : sum.1.toNat + term.1.toNat < 2 ^ 64 := by
    have le := quotients_le hs ht
    omega
  rw [checkedAddTerm, Checked.add_eq room, Option.bind_eq_bind, Option.bind_some,
    if_neg (no_early_exit hs ht fits)]
  by_cases some_left : term.2 = 0
  · -- without a remainder there is nothing to carry
    have below : sum.2.toNat < denominator.toNat := hs.lt
    have short : ¬ term.2 ≥ denominator - sum.2 := by
      rw [some_left, ge_iff_le, BitVec.not_le, BitVec.lt_def,
        BitVec.toNat_sub_of_le (BitVec.le_def.2 below.le)]
      have zero : (0 : Word).toNat = 0 := rfl
      omega
    have splits := carried.2
    rw [if_neg short, some_left, add_zero] at splits
    rw [if_neg (not_not.2 some_left)]
    have value : addTerm denominator term sum = (sum.1 + term.1, sum.2) := by
      simp only [addTerm, some_left, ne_eq, not_true, if_false]
    rw [value]
    exact ⟨rfl, splits⟩
  · rw [if_pos some_left]
    simpa only [addTerm, ne_eq, some_left, not_false_iff, if_true] using carried

theorem checkedDoubleTerm_splits (ht : Splits denominator m term)
    (fits : 2 * m / denominator.toNat < 2 ^ 64) :
    checkedDoubleTerm denominator term = some (doubleTerm denominator term) ∧
      Splits denominator (2 * m) (doubleTerm denominator term) := by
  rw [Nat.two_mul] at fits ⊢
  have twice : term.1 * 2 = term.1 + term.1 := by ring
  have two : (2 : Word).toNat = 2 := rfl
  have room : term.1.toNat * (2 : Word).toNat < 2 ^ 64 := by
    have le := quotients_le ht ht
    rw [two]
    omega
  have carried := checkedCarry_splits ht ht fits
  simpa only [checkedDoubleTerm, Checked.mul_eq room, Option.bind_eq_bind, Option.bind_some,
    doubleTerm, twice] using carried

theorem half_step (m k : Nat) : m * k = (if k % 2 = 1 then m else 0) + 2 * m * (k / 2) := by
  have parts : m * (2 * (k / 2) + k % 2) = m * k := by rw [Nat.div_add_mod]
  rw [← parts]
  rcases Nat.mod_two_eq_zero_or_one k with even | odd
  · rw [if_neg (by omega), even]
    ring
  · rw [if_pos odd, odd]
    ring

theorem addOdd_splits (scale : Word) (hs : Splits denominator n sum)
    (ht : Splits denominator m term)
    (below : (n + if scale.toNat % 2 = 1 then m else 0) / denominator.toNat < 2 ^ 64 - 1) :
    ¬ (scale &&& 1 ≠ 0 ∧ sum.1 + term.1 = uint64Max) ∧
      (if scale &&& 1 ≠ 0 then checkedAddTerm denominator term sum else some sum) =
        some (if scale &&& 1 ≠ 0 then addTerm denominator term sum else sum) ∧
      Splits denominator (n + if scale.toNat % 2 = 1 then m else 0)
        (if scale &&& 1 ≠ 0 then addTerm denominator term sum else sum) := by
  have bit := BitWord.odd_iff (by decide) scale
  by_cases odd : scale.toNat % 2 = 1
  · simp only [if_pos odd] at below ⊢
    have taken := bit.2 odd
    simp only [if_pos taken]
    exact ⟨fun exit => no_early_exit hs ht below exit.2, checkedAddTerm_splits hs ht below⟩
  · have skipped : ¬ scale &&& 1 ≠ 0 := mt bit.1 odd
    simp only [if_neg odd, if_neg skipped, Nat.add_zero]
    exact ⟨fun exit => skipped exit.1, trivial, hs⟩

theorem checkedRemainderLoop_eq (scale : Word) (hs : Splits denominator n sum)
    (ht : Splits denominator m term)
    (fits : (n + m * scale.toNat) / denominator.toNat < 2 ^ 64 - 1) :
    checkedRemainderLoop denominator sum term scale =
        some (scaledRemainderLoop denominator sum term scale) ∧
      (scaledRemainderLoop denominator sum term scale).toNat =
        (n + m * scale.toNat) / denominator.toNat := by
  induction k : scale.toNat using Nat.strong_induction_on generalizing scale n m sum term with
  | _ k ih =>
    subst k
    rw [scaledRemainderLoop, checkedRemainderLoop]
    have halves : (scale >>> 1).toNat = scale.toNat / 2 := by
      rw [BitVec.toNat_ushiftRight, Nat.shiftRight_eq_div_pow]
    have zero : (0 : Word).toNat = 0 := rfl
    by_cases some_left : scale = 0
    · subst some_left
      simp only [ne_eq, not_true, if_false, zero, Nat.mul_zero, Nat.add_zero]
      exact ⟨trivial, hs.quotient_eq.symm⟩
    · have pos : scale.toNat ≠ 0 := fun h => some_left (BitVec.eq_of_toNat_eq (h.trans zero.symm))
      rw [half_step, ← Nat.add_assoc] at fits ⊢
      let n' := n + if scale.toNat % 2 = 1 then m else 0
      let sum' := if scale &&& 1 ≠ 0 then addTerm denominator term sum else sum
      have below : n' / denominator.toNat < 2 ^ 64 - 1 :=
        (Nat.div_le_div_right (Nat.le_add_right _ _)).trans_lt fits
      have added := addOdd_splits scale hs ht below
      rw [if_pos some_left, if_pos some_left, if_neg added.1, added.2.1]
      simp only [Option.bind_eq_bind, Option.bind_some]
      by_cases last : scale >>> 1 = 0
      · have none : scale.toNat / 2 = 0 := by rw [← halves, last, zero]
        rw [if_pos last, if_pos last, none, Nat.mul_zero, Nat.add_zero]
        exact ⟨rfl, added.2.2.quotient_eq.symm⟩
      · have more : scale.toNat / 2 ≠ 0 := fun h =>
          last (BitVec.eq_of_toNat_eq (halves.trans h))
        have twice : 2 * m ≤ n' + 2 * m * (scale.toNat / 2) :=
          (Nat.le_mul_of_pos_right _ (Nat.pos_of_ne_zero more)).trans (Nat.le_add_left _ _)
        have doubled := checkedDoubleTerm_splits ht
          (((Nat.div_le_div_right twice).trans_lt fits).trans (by decide))
        rw [if_neg last, if_neg last, doubled.1]
        have rest := ih _ (by omega) (scale >>> 1) added.2.2 doubled.2 (by rw [halves]; exact fits)
          halves
        exact rest

end

theorem checkedRemainderTerm_eq {remainder denominator : Word} (lt : remainder < denominator)
    (scale : Word) :
    checkedRemainderTerm remainder denominator scale =
        some (scaledRemainderTerm remainder denominator scale) ∧
      (scaledRemainderTerm remainder denominator scale).toNat =
        remainder.toNat * scale.toNat / denominator.toNat := by
  rw [BitVec.lt_def] at lt
  have zero : (0 : Word).toNat = 0 := rfl
  have pos : 0 < denominator.toNat := Nat.zero_lt_of_lt lt
  have sum : Splits denominator 0 (0, 0) := Divides.of_lt pos
  have term : Splits denominator remainder.toNat (0, remainder) := Divides.of_lt lt
  have fits : (0 + remainder.toNat * scale.toNat) / denominator.toNat < 2 ^ 64 - 1 := by
    have top := scale.isLt
    rcases Nat.eq_zero_or_pos scale.toNat with none | some_left
    · simp [none]
    · have less : remainder.toNat * scale.toNat < denominator.toNat * scale.toNat :=
        Nat.mul_lt_mul_of_pos_right lt some_left
      have quotient : (0 + remainder.toNat * scale.toNat) / denominator.toNat < scale.toNat := by
        rw [Nat.zero_add, Nat.div_lt_iff_lt_mul pos, Nat.mul_comm scale.toNat]
        exact less
      omega
  have loop := checkedRemainderLoop_eq scale sum term fits
  rwa [Nat.zero_add] at loop

theorem scaledRemainderTerm_toNat {remainder denominator : Word} (lt : remainder < denominator)
    (scale : Word) : (scaledRemainderTerm remainder denominator scale).toNat =
      remainder.toNat * scale.toNat / denominator.toNat :=
  (checkedRemainderTerm_eq lt scale).2

theorem scaleLimit_toNat : (uint64Max / 100000 : Word).toNat = 184467440737095 := rfl

theorem saturate_toNat (whole part : Word) :
    (if whole > uint64Max / 100000 then uint64Max
      else if whole * 100000 > uint64Max - part then uint64Max
      else whole * 100000 + part).toNat = min (whole.toNat * 100000 + part.toNat) (2 ^ 64 - 1) := by
  have most := uint64Max_toNat
  have scale : (100000 : Word).toNat = 100000 := rfl
  have gap : (uint64Max - part).toNat = 2 ^ 64 - 1 - part.toNat := by
    rw [BitVec.toNat_sub_of_le (BitVec.le_def.2 (by omega)), most]
  split
  · rename_i large
    rw [gt_iff_lt, BitVec.lt_def, scaleLimit_toNat] at large
    omega
  · rename_i small
    rw [gt_iff_lt, BitVec.lt_def, scaleLimit_toNat] at small
    have product : (whole * 100000).toNat = whole.toNat * 100000 := by
      rw [BitVec.toNat_mul, scale, Nat.mod_eq_of_lt (by omega)]
    split
    · rename_i large
      rw [gt_iff_lt, BitVec.lt_def, gap, product] at large
      omega
    · rename_i fits
      rw [gt_iff_lt, BitVec.lt_def, gap, product] at fits
      rw [BitVec.toNat_add, product]
      omega

theorem nxmtPercentMilli_toNat (numerator denominator : Word) :
    (nxmtPercentMilli numerator denominator).toNat =
      min (numerator.toNat * 100000 / denominator.toNat) (2 ^ 64 - 1) := by
  have zero : (0 : Word).toNat = 0 := rfl
  by_cases none : denominator = 0
  · rw [nxmtPercentMilli, if_pos none, none, zero, Nat.div_zero, Nat.zero_min]
  · have pos : 0 < denominator.toNat := by
      rw [Nat.pos_iff_ne_zero]
      exact fun h => none (BitVec.eq_of_toNat_eq (h.trans zero.symm))
    have lt : numerator % denominator < denominator := by
      rw [BitVec.lt_def, BitVec.toNat_umod]
      exact Nat.mod_lt _ pos
    have scaled := scaledRemainderTerm_toNat lt 100000
    have scale : (100000 : Word).toNat = 100000 := rfl
    rw [BitVec.toNat_umod, scale] at scaled
    have whole : (numerator / denominator).toNat = numerator.toNat / denominator.toNat :=
      BitVec.toNat_udiv
    -- the quotient scaled, and what the remainder adds to it
    have parts : numerator.toNat * 100000 / denominator.toNat =
        numerator.toNat / denominator.toNat * 100000 +
          numerator.toNat % denominator.toNat * 100000 / denominator.toNat := by
      have split : numerator.toNat * 100000 = denominator.toNat *
          (numerator.toNat / denominator.toNat * 100000) +
            numerator.toNat % denominator.toNat * 100000 := by
        conv_lhs => rw [← Nat.div_add_mod numerator.toNat denominator.toNat]
        ring
      rw [split, Nat.mul_add_div pos]
    rw [nxmtPercentMilli, if_neg none, parts, ← scaled, ← whole]
    exact saturate_toNat _ _

/-- Percentages are exact as long as they fit and saturate beyond; the remainder is scaled
without a wrap and without the early exit. -/
theorem percentages_exact (numerator denominator remainder scale : Word) :
    (nxmtPercentMilli numerator denominator).toNat = (if denominator = 0 then 0
        else min (numerator.toNat * 100000 / denominator.toNat) (2 ^ 64 - 1)) ∧
      (remainder < denominator →
        checkedRemainderTerm remainder denominator scale =
            some (scaledRemainderTerm remainder denominator scale) ∧
          (scaledRemainderTerm remainder denominator scale).toNat =
            remainder.toNat * scale.toNat / denominator.toNat) := by
  refine ⟨?_, fun lt => checkedRemainderTerm_eq lt scale⟩
  by_cases none : denominator = 0
  · rw [if_pos none, nxmtPercentMilli, if_pos none]
    rfl
  · rw [if_neg none]
    exact nxmtPercentMilli_toNat numerator denominator

theorem percentages_exact_nearTop :
    checkedRemainderTerm 0xfffffffffffffffe 0xffffffffffffffff 100000 =
        some (scaledRemainderTerm 0xfffffffffffffffe 0xffffffffffffffff 100000) ∧
      (scaledRemainderTerm 0xfffffffffffffffe 0xffffffffffffffff 100000).toNat = 99999 :=
  (percentages_exact 0 0xffffffffffffffff 0xfffffffffffffffe 100000).2 (by decide)

end NxMemTest
