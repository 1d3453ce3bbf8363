import NxMemTest.Chunk
import Mathlib.Data.BitVec

/-! What one chunk write amounts to: each phase's own loop against
`nxmt_expected_value` word by word. -/

namespace NxMemTest

def expectedWord (seed : Word) (phase : NxmtPhase) (pass : Word) (w : Nat) : Word :=
  nxmtExpectedValue seed phase pass (BitVec.ofNat 64 (8 * w))

namespace Device
variable {σ : Type} (d : Device σ)

def view (m : σ) (q : Nat) : Word := (d.load m q).1

def Stable (m : σ) : Prop := ∀ q, (d.load m q).2 = m

/-- A word reads back as `g` of what was last stored in it, and a store reaches
no other word. -/
def ReadsBack (g : Nat → Word → Word) : Prop :=
  ∀ m q v, d.view (d.store m q v) = Function.update (d.view m) q (g q v)

variable {d}

theorem Stable.load {m : σ} (h : d.Stable m) (q : Nat) : d.load m q = (d.view m q, m) :=
  Prod.ext rfl (h q)

end Device

theorem ram_stable (m : Ram) : ram.Stable m := fun _ => rfl

@[simp] theorem ram_view (m : Ram) (q : Nat) : ram.view m q = m q := rfl

theorem ram_readsBack : ram.ReadsBack fun _ v => v := fun _ _ _ => rfl

@[simp] theorem ram_store (m : Ram) (q : Nat) (v : Word) :
    ram.store m q v = Function.update m q v := rfl

/-! ### Offsets and parities -/

theorem offset_word (s k : Nat) :
    BitVec.ofNat 64 s * wordBytes + BitVec.ofNat 64 k * wordBytes = BitVec.ofNat 64 (8 * (s + k)) := by
  rw [wordBytes, BitVec.ofNat_mul_ofNat, BitVec.ofNat_mul_ofNat, ← BitVec.ofNat_add,
    Nat.mul_add, Nat.mul_comm s, Nat.mul_comm k]
  rfl

theorem wordIndex_word {w : Nat} (hw : 8 * w < 2 ^ 64) :
    BitVec.ofNat 64 (8 * w) / BitVec.ofNat 64 nxmtWordBytes = BitVec.ofNat 64 w := by
  have eight : (BitVec.ofNat 64 nxmtWordBytes).toNat = 8 := rfl
  apply BitVec.eq_of_toNat_eq
  rw [BitVec.toNat_udiv, eight, BitVec.toNat_ofNat, BitVec.toNat_ofNat, Nat.mod_eq_of_lt hw]
  omega

theorem and_one_ne_zero (x : Word) : x &&& 1 ≠ 0 ↔ x.toNat % 2 = 1 :=
  BitWord.odd_iff (by decide) x

/-- Moving an even distance keeps the parity, an odd distance flips it. -/
theorem and_one_add (x : Word) (k : Nat) :
    (x + BitVec.ofNat 64 k) &&& 1 ≠ 0 ↔ (x &&& 1 ≠ 0 ↔ k % 2 = 0) := by
  have sum : (x + BitVec.ofNat 64 k).toNat % 2 = (x.toNat + k) % 2 := by
    rw [BitVec.toNat_add, BitVec.toNat_ofNat]
    omega
  rw [and_one_ne_zero, and_one_ne_zero, sum]
  omega

/-! ### The stamp of `STREAM` -/

theorem foldl_update (n : Nat) (f : Nat → Word) (stamp : Nat → Word) (j : Nat) :
    Loop.run 1 n 0 (fun k stamp => Function.update stamp k (f k)) stamp j =
      if j < n then f j else stamp j := by
  rw [Loop.run_one]
  induction n with
  | zero => rfl
  | succ n ih =>
    rw [List.range_succ, List.foldl_append, List.foldl_cons, List.foldl_nil]
    by_cases hj : j = n
    · subst hj
      simp
    · rw [Function.update_of_ne hj, ih]
      by_cases lt : j < n
      · rw [if_pos lt, if_pos (by omega)]
      · rw [if_neg lt, if_neg (by omega)]

theorem nxmtFillStreamStamp_eq (stamp : Nat → Word) (seed pass : Word) {j : Nat} (hj : j < 1024) :
    nxmtFillStreamStamp stamp seed pass j =
      (BitVec.ofNat 64 j * wordBytes) ^^^ (seed ^^^ (pass * kStreamPassMul)) := by
  rw [nxmtFillStreamStamp, foldl_update]
  exact if_pos hj

theorem and_1023 (n : Nat) : n &&& (nxmtStreamStampWords - 1) = n % 1024 :=
  Nat.and_two_pow_sub_one_eq_mod n 10

/-! ### The formulas of writer and verifier -/

theorem pair_pick (x a b : Word) (k : Nat) :
    (if k % 2 = 0 then (if x &&& 1 ≠ 0 then b else a)
      else (if x &&& 1 ≠ 0 then b else a) ^^^ (a ^^^ b)) =
      if (x + BitVec.ofNat 64 k) &&& 1 ≠ 0 then b else a := by
  have back : b ^^^ (a ^^^ b) = a := by
    rw [BitVec.xor_comm a, BitWord.xor_xor_cancel_left]
  have parity := and_one_add x k
  by_cases odd : x &&& 1 ≠ 0 <;> by_cases even : k % 2 = 0
  · rw [if_pos even, if_pos odd, if_pos (parity.2 ⟨fun _ => even, fun _ => odd⟩)]
  · rw [if_neg even, if_pos odd, if_neg fun h => even ((parity.1 h).1 odd), back]
  · rw [if_pos even, if_neg odd, if_neg fun h => odd ((parity.1 h).2 even)]
  · rw [if_neg even, if_neg odd, if_pos (parity.2 ⟨fun h => absurd h odd, fun h => absurd h even⟩),
      BitWord.xor_xor_cancel_left]

section Formulas
variable (seed pass : Word) {s k : Nat} (h : 8 * (s + k) < 2 ^ 64)

theorem expectedWord_fixedA (w : Nat) : expectedWord seed .fixedA pass w = kFixedA := rfl

theorem expectedWord_fixed5 (w : Nat) : expectedWord seed .fixed5 pass w = kFixed5 := rfl

theorem expectedWord_address :
    (BitVec.ofNat 64 s * wordBytes + BitVec.ofNat 64 k * wordBytes) ^^^
        (seed ^^^ (pass * kAddrPassMul)) = expectedWord seed .address pass (s + k) := by
  rw [offset_word, ← BitVec.xor_assoc]
  rfl

theorem expectedWord_narrow :
    (((BitVec.ofNat 64 s * wordBytes + BitVec.ofNat 64 k * wordBytes + pass * wordBytes) &&& 0xff) *
        0x0101010101010101) ^^^ 0x0706050403020100 ^^^ seed =
      expectedWord seed .narrow pass (s + k) := by
  rw [offset_word]
  rfl

theorem expectedWord_stream :
    ((BitVec.ofNat 64 s * wordBytes + BitVec.ofNat 64 k * wordBytes) &&& 0x1fff) ^^^
        (seed ^^^ (pass * kStreamPassMul)) = expectedWord seed .stream pass (s + k) := by
  rw [offset_word, ← BitVec.xor_assoc]
  rfl

include h

theorem expectedWord_checker :
    (if (BitVec.ofNat 64 s + BitVec.ofNat 64 k) &&& 1 ≠ 0 then kFixed5 else kFixedA) =
      expectedWord seed .checker pass (s + k) := by
  simp only [expectedWord, nxmtExpectedValue, wordIndex_word h, BitVec.ofNat_add]
  rfl

theorem expectedWord_random :
    bswap64 (BitVec.ofNat 64 s + BitVec.ofNat 64 k) ^^^ (seed ^^^ (pass * kRandPassMul)) =
      expectedWord seed .random pass (s + k) := by
  simp only [expectedWord, nxmtExpectedValue, wordIndex_word h, BitVec.ofNat_add]
  rw [← BitVec.xor_assoc]
  rfl

theorem expectedWord_walking :
    1#64 <<< ((BitVec.ofNat 64 s + pass + BitVec.ofNat 64 k) &&& 63) =
      expectedWord seed .walking pass (s + k) := by
  simp only [expectedWord, nxmtExpectedValue, wordIndex_word h, BitVec.ofNat_add]
  rw [add_right_comm]

theorem expectedWord_bitspread :
    (if (BitVec.ofNat 64 s + BitVec.ofNat 64 k + pass) &&& 1 ≠ 0 then kBitSpread1
        else kBitSpread0) = expectedWord seed .bitspread pass (s + k) := by
  simp only [expectedWord, nxmtExpectedValue, wordIndex_word h, BitVec.ofNat_add]
  rfl

theorem expectedWord_stamp (stamp : Nat → Word) :
    nxmtFillStreamStamp stamp seed pass ((streamStart (BitVec.ofNat 64 s) + k) % 1024) =
      expectedWord seed .stream pass (s + k) := by
  rw [nxmtFillStreamStamp_eq stamp seed pass (Nat.mod_lt _ (by decide)),
    ← expectedWord_stream seed pass]
  congr 1
  apply BitVec.eq_of_toNat_eq
  have low := BitWord.toNat_and_low (BitVec.ofNat 64 (8 * (s + k))) 13 (by decide)
  have mask : BitVec.ofNat 64 (2 ^ 13 - 1) = (0x1fff : Word) := by decide
  rw [mask] at low
  have start : (streamStart (BitVec.ofNat 64 s)).val = s % 1024 := by
    simp only [streamStart, and_1023, BitVec.toNat_ofNat]
    omega
  rw [offset_word, low, start, wordBytes, BitVec.ofNat_mul_ofNat, BitVec.toNat_ofNat,
    BitVec.toNat_ofNat, nxmtWordBytes]
  omega

end Formulas

/-! ### Writing -/

section Write
variable {σ : Type} (d : Device σ)

def storeWords (ws : List Nat) (f : Nat → Word) (m : σ) : σ :=
  ws.foldl (fun m w => d.store m w (f w)) m

theorem storeWords_append (ws ws' : List Nat) (f : Nat → Word) (m : σ) :
    storeWords d (ws ++ ws') f m = storeWords d ws' f (storeWords d ws f m) := List.foldl_append

theorem storeWords_congr {ws : List Nat} {f g : Nat → Word} (h : ∀ w ∈ ws, f w = g w) (m : σ) :
    storeWords d ws f m = storeWords d ws g m :=
  List.foldl_ext _ _ _ fun m w hw => by rw [h w hw]

theorem view_storeWords {g : Nat → Word → Word} (h : d.ReadsBack g) (ws : List Nat)
    (f : Nat → Word) (m : σ) (w : Nat) :
    d.view (storeWords d ws f m) w = if w ∈ ws then g w (f w) else d.view m w := by
  induction ws generalizing m with
  | nil => rfl
  | cons q ws ih =>
    rw [storeWords, List.foldl_cons, ← storeWords, ih, h]
    by_cases here : w = q
    · subst here
      simp
    · simp [here]

theorem storeLoop_eq (p n : Nat) (f : Nat → Word) (m : σ) :
    Loop.run 1 n 0 (fun k m => d.store m (p + k) (f k)) m =
      storeWords d (List.range' p n) (fun w => f (w - p)) m := by
  rw [Loop.run_one, storeWords, List.range'_eq_map_range, List.foldl_map]
  simp only [Nat.add_sub_cancel_left]

theorem pairLoop_eq (p n : Nat) (a b : Word) {k : Nat} (even : k % 2 = 0) (m : σ) :
    (let m := Loop.run 2 n k (fun k m => d.store (d.store m (p + k) a) (p + (k + 1)) b) m
      if Loop.exit 2 n k < n then d.store m (p + Loop.exit 2 n k) a else m) =
      Loop.run 1 n k (fun k m => d.store m (p + k) (if k % 2 = 0 then a else b)) m := by
  rw [← Loop.run_pairs]
  have parity : Loop.exit 2 n k % 2 = 0 := by
    simp only [Loop.exit]
    omega
  have pairs := Loop.run_congr (n := n) (k := k) (s := 2)
    (fun k m => d.store (d.store m (p + k) a) (p + (k + 1)) b)
    (fun j m => d.store (d.store m (p + j) (if j % 2 = 0 then a else b)) (p + (j + 1))
      (if (j + 1) % 2 = 0 then a else b)) (fun j hj m => by
        obtain ⟨i, -, rfl⟩ := List.mem_range'.1 hj
        rw [if_pos (by omega), if_neg (by omega)]) m
  dsimp only
  rw [pairs, if_pos parity]

theorem writePairs_eq (p n : Nat) (a b : Word) (m : σ) :
    writePairs d p n a b m =
      storeWords d (List.range' p n) (fun w => if (w - p) % 2 = 0 then a else b) m :=
  (pairLoop_eq d p n a b rfl m).trans (storeLoop_eq d p n _ m)

theorem streamTurns_pairs (n k : Nat) (stampPos : Fin 1024) :
    (streamTurns n k stampPos).flatMap
        (fun turn => (List.range turn.2.2).map fun j => (turn.1 + j, turn.2.1 + j)) =
      (List.range' k (n - k)).map fun i => (i, (stampPos + (i - k)) % 1024) := by
  induction k, stampPos using streamTurns.induct n with
  | case1 k stampPos more need avail copy ih =>
    have pos := stampPos.isLt
    have hcopy : copy = min (n - k) (1024 - stampPos) := rfl
    rw [streamTurns, if_pos more, List.flatMap_cons]
    refine (congrArg _ ih).trans ?_
    have split : List.range' k (n - k) =
        List.range' k copy ++ List.range' (k + copy) (n - (k + copy)) := by
      rw [List.range'_append_1]
      congr 1
      omega
    rw [split, List.map_append]
    congr 1
    · rw [List.range'_eq_map_range, List.map_map]
      refine List.map_congr_left fun j hj => ?_
      have lt : j < copy := List.mem_range.1 hj
      simp only [Function.comp, Prod.mk.injEq, true_and]
      omega
    · refine List.map_congr_left fun i hi => ?_
      have := List.mem_range'_1.1 hi
      simp only [and_1023, Prod.mk.injEq, true_and]
      omega
  | case2 k stampPos stop =>
    rw [streamTurns, if_neg stop, Nat.sub_eq_zero_of_le (Nat.le_of_not_lt stop)]
    rfl

theorem streamWrite_eq (p n : Nat) (stampPos : Fin 1024) (stamp : Nat → Word) (m : σ) :
    (streamTurns n 0 stampPos).foldl
        (fun m turn =>
          nxmtNeonCopyWords d (p + turn.1) (fun j => stamp (turn.2.1 + j)) turn.2.2 m) m =
      storeWords d (List.range' p n) (fun w => stamp ((stampPos + (w - p)) % 1024)) m := by
  have copy : ∀ m (turn : Nat × Nat × Nat),
      nxmtNeonCopyWords d (p + turn.1) (fun j => stamp (turn.2.1 + j)) turn.2.2 m =
        ((List.range turn.2.2).map fun j => (turn.1 + j, turn.2.1 + j)).foldl
          (fun m (q : Nat × Nat) => d.store m (p + q.1) (stamp q.2)) m := by
    intro m turn
    rw [nxmtNeonCopyWords, Loop.run_one, List.foldl_map]
    simp only [Nat.add_assoc]
  simp only [copy]
  rw [← List.foldl_flatMap, streamTurns_pairs, List.foldl_map, Nat.sub_zero, storeWords,
    List.range'_eq_map_range, List.range'_eq_map_range, List.foldl_map, List.foldl_map]
  simp only [Nat.zero_add, Nat.sub_zero, Nat.add_sub_cancel_left]

theorem nxmtWriteChunk_eq (p n s : Nat) (hs : 8 * (s + n) ≤ 2 ^ 64) (phase : NxmtPhase)
    (wide : phase ≠ .narrow) (seed pass : Word) (m : σ) :
    nxmtWriteChunk d p n (BitVec.ofNat 64 s) phase seed pass m =
      storeWords d (List.range' p n) (fun w => expectedWord seed phase pass (s + (w - p))) m := by
  have inside : ∀ w ∈ List.range' p n, 8 * (s + (w - p)) < 2 ^ 64 := by
    intro w hw
    have := List.mem_range'_1.1 hw
    omega
  cases phase with
  | fixedA => exact storeLoop_eq d p n _ m
  | fixed5 => exact storeLoop_eq d p n _ m
  | checker =>
    rw [nxmtWriteChunk, writePairs_eq]
    refine storeWords_congr d (fun w hw => ?_) m
    rw [← expectedWord_checker seed pass (inside w hw)]
    exact pair_pick _ kFixedA kFixed5 _
  | address =>
    rw [nxmtWriteChunk, storeLoop_eq d p n fun k =>
      (BitVec.ofNat 64 s * wordBytes + BitVec.ofNat 64 k * wordBytes) ^^^ _]
    exact storeWords_congr d (fun w _ => expectedWord_address seed pass) m
  | random =>
    rw [nxmtWriteChunk, storeLoop_eq d p n fun k =>
      bswap64 (BitVec.ofNat 64 s + BitVec.ofNat 64 k) ^^^ _]
    exact storeWords_congr d (fun w hw => expectedWord_random seed pass (inside w hw)) m
  | walking =>
    rw [nxmtWriteChunk, storeLoop_eq d p n fun k =>
      1#64 <<< ((BitVec.ofNat 64 s + pass + BitVec.ofNat 64 k) &&& 63)]
    exact storeWords_congr d (fun w hw => expectedWord_walking seed pass (inside w hw)) m
  | narrow => exact absurd rfl wide
  | bitspread =>
    rw [nxmtWriteChunk, writePairs_eq]
    refine storeWords_congr d (fun w hw => ?_) m
    rw [← expectedWord_bitspread seed pass (inside w hw), add_right_comm]
    exact pair_pick _ kBitSpread0 kBitSpread1 _
  | stream =>
    rw [nxmtWriteChunk, streamWrite_eq]
    exact storeWords_congr d (fun w hw => expectedWord_stamp seed pass (inside w hw) _) m

end Write

end NxMemTest
