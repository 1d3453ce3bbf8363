import NxMemTest.ChunkSpec

/-! The writer of all nine phases at working memory: `NARROW` stores bytes, the
others whole words, and every word of the chunk ends as `nxmt_expected_value`
has it. -/

namespace NxMemTest

/-! ### Bytes of words -/

def wordByte (x : Word) (j : Nat) : BitVec 8 := x.extractLsb' (8 * j) 8

theorem getLsbD_wordByte (x : Word) (j : Nat) {r : Nat} (hr : r < 8) :
    (wordByte x j).getLsbD r = x.getLsbD (8 * j + r) := by
  simp [wordByte, hr]

theorem eq_of_wordByte {x y : Word} (h : ∀ j < 8, wordByte x j = wordByte y j) : x = y := by
  apply BitVec.eq_of_getLsbD_eq
  intro i hi
  have low : i % 8 < 8 := Nat.mod_lt i (by decide)
  have split : 8 * (i / 8) + i % 8 = i := Nat.div_add_mod i 8
  rw [← split, ← getLsbD_wordByte x _ low, ← getLsbD_wordByte y _ low, h (i / 8) (by omega)]

theorem wordByte_xor (x y : Word) (j : Nat) :
    wordByte (x ^^^ y) j = wordByte x j ^^^ wordByte y j := by
  apply BitVec.eq_of_getLsbD_eq
  intro r hr
  rw [BitVec.getLsbD_xor, getLsbD_wordByte _ _ hr, getLsbD_wordByte _ _ hr,
    getLsbD_wordByte _ _ hr, BitVec.getLsbD_xor]

theorem wordByte_put (x : Word) (b : BitVec 8) {j k : Nat} (hj : j < 8) (hk : k < 8) :
    wordByte ((x &&& ~~~(0xff#64 <<< (8 * k))) ||| (b.setWidth 64 <<< (8 * k))) j =
      if j = k then b else wordByte x j := by
  apply BitVec.eq_of_getLsbD_eq
  intro r hr
  have inside : 8 * j + r < 64 := by omega
  have mask : ∀ i, (0xff#64).getLsbD i = decide (i < 8) := by
    intro i
    have ones : (0xff#64) = (BitVec.allOnes 8).setWidth 64 := by decide
    rw [ones, BitVec.getLsbD_setWidth, BitVec.getLsbD_allOnes]
    by_cases low : i < 8
    · simp [low, Nat.lt_trans low (by decide : 8 < 64)]
    · simp [low]
  rw [getLsbD_wordByte _ _ hr]
  simp only [BitVec.getLsbD_or, BitVec.getLsbD_and, BitVec.getLsbD_not, BitVec.getLsbD_shiftLeft,
    BitVec.getLsbD_setWidth, mask, inside, decide_true, Bool.true_and]
  by_cases same : j = k
  · subst same
    have back : 8 * j + r - 8 * j = r := by omega
    simp [back, hr, Nat.lt_of_lt_of_le hr (by decide : 8 ≤ 64)]
  · rw [if_neg same, getLsbD_wordByte _ _ hr]
    by_cases below : 8 * j + r < 8 * k
    · simp [below]
    · have above : ¬ 8 * j + r - 8 * k < 8 := by omega
      simp [above, BitVec.getLsbD_of_ge b _ (Nat.le_of_not_lt above)]

def Ram.byte (m : Ram) (q : Nat) : BitVec 8 := wordByte (m (q / 8)) (q % 8)

theorem Ram.ext_byte {m m' : Ram} {w : Nat} (h : ∀ j < 8, m.byte (8 * w + j) = m'.byte (8 * w + j)) :
    m w = m' w := by
  refine eq_of_wordByte fun j hj => ?_
  have word : (8 * w + j) / 8 = w := by omega
  have index : (8 * w + j) % 8 = j := by omega
  have same := h j hj
  rwa [Ram.byte, Ram.byte, word, index] at same

theorem Ram.byte_storeByte (m : Ram) (q : Nat) (b : BitVec 8) (r : Nat) :
    (m.storeByte q b).byte r = if r = q then b else m.byte r := by
  rw [Ram.byte, Ram.storeByte]
  by_cases word : r / 8 = q / 8
  · rw [word, Function.update_self, wordByte_put _ _ (Nat.mod_lt r (by decide))
      (Nat.mod_lt q (by decide)), Ram.byte, word]
    by_cases same : r = q
    · rw [if_pos same, if_pos (congrArg (· % 8) same)]
    · rw [if_neg same, if_neg (by omega)]
  · have other : r ≠ q := fun same => word (congrArg (· / 8) same)
    rw [Function.update_of_ne word, if_neg other, Ram.byte]

theorem Ram.byte_storeBytes (q n : Nat) (f : Nat → BitVec 8) (m : Ram) (r : Nat) :
    Ram.byte (Loop.run 1 n 0 (fun i m => ram.storeByte m (q + i) (f i)) m) r =
      if q ≤ r ∧ r < q + n then f (r - q) else m.byte r := by
  rw [Loop.run_one]
  induction n with
  | zero =>
    have none : ¬ (q ≤ r ∧ r < q + 0) := by omega
    rw [if_neg none]
    rfl
  | succ n ih =>
    rw [List.range_succ, List.foldl_append, List.foldl_cons, List.foldl_nil]
    refine (Ram.byte_storeByte _ _ _ r).trans ?_
    rw [ih]
    by_cases last : r = q + n
    · subst last
      simp
    · rw [if_neg last]
      refine if_congr ?_ rfl rfl
      omega

/-! ### The bytes of `NARROW` -/

theorem repeat_byte {y j : Nat} (hy : y < 256) (hj : j < 8) :
    y * 0x0101010101010101 / 2 ^ (8 * j) % 2 ^ 8 = y := by
  obtain ⟨high, low, small, parts⟩ : ∃ high low, 255 * low < 2 ^ (8 * j) ∧
      0x0101010101010101 = 2 ^ (8 * j) * (256 * high + 1) + low := by
    refine ⟨0x0101010101010101 / 2 ^ (8 * (j + 1)), 0x0101010101010101 % 2 ^ (8 * j), ?_, ?_⟩ <;>
      interval_cases j <;> decide
  have below : y * low < 2 ^ (8 * j) :=
    (Nat.mul_le_mul_right low (Nat.le_of_lt_succ hy)).trans_lt small
  calc y * 0x0101010101010101 / 2 ^ (8 * j) % 2 ^ 8
      = (2 ^ (8 * j) * (y * (256 * high + 1)) + y * low) / 2 ^ (8 * j) % 2 ^ 8 := by
        rw [parts, Nat.mul_add, Nat.mul_left_comm]
    _ = y * (256 * high + 1) % 2 ^ 8 := by
        rw [Nat.mul_add_div (Nat.two_pow_pos _), Nat.div_eq_of_lt below, Nat.add_zero]
    _ = y := by
        rw [Nat.mul_add, Nat.mul_one, Nat.mul_left_comm]
        omega

theorem wordByte_repeat (x : Word) {j : Nat} (hj : j < 8) :
    wordByte ((x &&& 0xff) * 0x0101010101010101) j = x.setWidth 8 := by
  have low := BitWord.toNat_and_low x 8 (by decide)
  have mask : BitVec.ofNat 64 (2 ^ 8 - 1) = (0xff : Word) := by decide
  rw [mask] at low
  have factor : (0x0101010101010101 : Word).toNat = 0x0101010101010101 := rfl
  have bound : x.toNat % 2 ^ 8 < 256 := Nat.mod_lt _ (by decide)
  apply BitVec.eq_of_toNat_eq
  rw [wordByte, BitVec.extractLsb'_toNat, BitVec.toNat_mul, low, factor, BitVec.toNat_setWidth,
    Nat.mod_eq_of_lt (by omega : x.toNat % 2 ^ 8 * 0x0101010101010101 < 2 ^ 64),
    Nat.shiftRight_eq_div_pow]
  exact repeat_byte bound hj

theorem wordByte_ascending {j : Nat} (hj : j < 8) :
    wordByte 0x0706050403020100 j = BitVec.ofNat 8 j := by
  interval_cases j <;> decide

theorem add_low_byte (x : Word) (hx : x.toNat % 8 = 0) {j : Nat} (hj : j < 8) :
    (x + BitVec.ofNat 64 j).setWidth 8 = x.setWidth 8 ^^^ BitVec.ofNat 8 j := by
  have table : ∀ z : Fin 32, ∀ j : Fin 8, BitVec.ofNat 8 (8 * z) + BitVec.ofNat 8 j =
      BitVec.ofNat 8 (8 * z) ^^^ BitVec.ofNat 8 j := by decide
  have low : x.setWidth 8 = BitVec.ofNat 8 (8 * (x.toNat / 8 % 32)) := by
    apply BitVec.eq_of_toNat_eq
    rw [BitVec.toNat_setWidth, BitVec.toNat_ofNat]
    omega
  have sum : (x + BitVec.ofNat 64 j).setWidth 8 = x.setWidth 8 + BitVec.ofNat 8 j := by
    apply BitVec.eq_of_toNat_eq
    rw [BitVec.toNat_setWidth, BitVec.toNat_add, BitVec.toNat_add, BitVec.toNat_setWidth,
      BitVec.toNat_ofNat, BitVec.toNat_ofNat]
    omega
  rw [sum, low]
  exact table ⟨x.toNat / 8 % 32, Nat.mod_lt _ (by decide)⟩ ⟨j, hj⟩

theorem narrowByte_eq (seed pass : Word) (s k : Nat) {j : Nat} (hj : j < 8) :
    ((BitVec.ofNat 64 s * wordBytes + pass * wordBytes + BitVec.ofNat 64 (8 * k + j)).setWidth 8 ^^^
        (seed >>> ((BitVec.ofNat 64 (8 * k + j) &&& 7) * 8)).setWidth 8) =
      wordByte (expectedWord seed .narrow pass (s + k)) j := by
  let y : Word := BitVec.ofNat 64 (8 * (s + k)) + pass * wordBytes
  have eight : wordBytes.toNat = 8 := rfl
  have aligned : y.toNat % 8 = 0 := by
    simp only [y, BitVec.toNat_add, BitVec.toNat_mul, BitVec.toNat_ofNat, eight]
    omega
  have offset : BitVec.ofNat 64 s * wordBytes + pass * wordBytes + BitVec.ofNat 64 (8 * k + j) =
      y + BitVec.ofNat 64 j := by
    have word : BitVec.ofNat 64 (8 * k) = BitVec.ofNat 64 k * wordBytes := by
      rw [wordBytes, BitVec.ofNat_mul_ofNat, Nat.mul_comm]
      rfl
    rw [BitVec.ofNat_add, ← BitVec.add_assoc, word,
      add_right_comm (BitVec.ofNat 64 s * wordBytes), offset_word]
  have shift : (BitVec.ofNat 64 (8 * k + j) &&& 7) * 8 = BitVec.ofNat 64 (8 * j) := by
    have low := BitWord.toNat_and_low (BitVec.ofNat 64 (8 * k + j)) 3 (by decide)
    have mask : BitVec.ofNat 64 (2 ^ 3 - 1) = (7 : Word) := by decide
    have times : (8 : Word).toNat = 8 := rfl
    rw [mask] at low
    apply BitVec.eq_of_toNat_eq
    rw [BitVec.toNat_mul, low, times, BitVec.toNat_ofNat, BitVec.toNat_ofNat]
    omega
  have seedByte : (seed >>> ((BitVec.ofNat 64 (8 * k + j) &&& 7) * 8)).setWidth 8 =
      wordByte seed j := by
    have distance : (BitVec.ofNat 64 (8 * j)).toNat = 8 * j := by
      rw [BitVec.toNat_ofNat]
      omega
    rw [shift, BitVec.ushiftRight_eq', distance]
    apply BitVec.eq_of_getLsbD_eq
    intro r hr
    rw [getLsbD_wordByte _ _ hr]
    simp [hr]
  have value : expectedWord seed .narrow pass (s + k) =
      ((y &&& 0xff) * 0x0101010101010101) ^^^ 0x0706050403020100 ^^^ seed := rfl
  rw [offset, add_low_byte y aligned hj, seedByte, value, wordByte_xor, wordByte_xor,
    wordByte_repeat y hj, wordByte_ascending hj]

/-! ### The whole writer -/

theorem narrowWrite_eq (p n s : Nat) (seed pass : Word) (m : Ram) (q : Nat) :
    nxmtWriteChunk ram p n (BitVec.ofNat 64 s) .narrow seed pass m q =
      if q ∈ List.range' p n then expectedWord seed .narrow pass (s + (q - p)) else m q := by
  have stored := Ram.byte_storeBytes (p * nxmtWordBytes) (n * nxmtWordBytes) (fun i =>
    (BitVec.ofNat 64 s * wordBytes + pass * wordBytes + BitVec.ofNat 64 i).setWidth 8 ^^^
      (seed >>> ((BitVec.ofNat 64 i &&& 7) * 8)).setWidth 8) m
  have eight : nxmtWordBytes = 8 := rfl
  rw [eight] at stored
  let m' : Ram := fun q =>
    if q ∈ List.range' p n then expectedWord seed .narrow pass (s + (q - p)) else m q
  have whole : nxmtWriteChunk ram p n (BitVec.ofNat 64 s) .narrow seed pass m q = m' q := by
    refine Ram.ext_byte fun j hj => (stored (8 * q + j)).trans ?_
    have word : (8 * q + j) / 8 = q := by omega
    have index : (8 * q + j) % 8 = j := by omega
    by_cases inside : p ≤ q ∧ q < p + n
    · have here : p * 8 ≤ 8 * q + j ∧ 8 * q + j < p * 8 + n * 8 := by omega
      have distance : 8 * q + j - p * 8 = 8 * (q - p) + j := by omega
      have hq : q ∈ List.range' p n := List.mem_range'_1.2 inside
      rw [if_pos here, distance, narrowByte_eq seed pass s (q - p) hj, Ram.byte, word, index]
      simp only [m', if_pos hq]
    · have away : ¬ (p * 8 ≤ 8 * q + j ∧ 8 * q + j < p * 8 + n * 8) := by omega
      have hq : q ∉ List.range' p n := fun hq => inside (List.mem_range'_1.1 hq)
      rw [if_neg away, Ram.byte, Ram.byte, word, index]
      simp only [m', if_neg hq]
  exact whole

theorem nxmtWriteChunk_ram (p n s : Nat) (hs : 8 * (s + n) ≤ 2 ^ 64) (phase : NxmtPhase)
    (seed pass : Word) (m : Ram) (q : Nat) :
    nxmtWriteChunk ram p n (BitVec.ofNat 64 s) phase seed pass m q =
      if q ∈ List.range' p n then expectedWord seed phase pass (s + (q - p)) else m q := by
  by_cases wide : phase = .narrow
  · subst wide
    exact narrowWrite_eq p n s seed pass m q
  · rw [nxmtWriteChunk_eq ram p n s hs phase wide]
    exact view_storeWords ram ram_readsBack _ _ m q

theorem streamTurns_inside (n k : Nat) (stampPos : Fin 1024) :
    ∀ turn ∈ streamTurns n k stampPos,
      0 < turn.2.2 ∧ turn.1 + turn.2.2 ≤ n ∧ turn.2.1 + turn.2.2 ≤ nxmtStreamStampWords := by
  induction k, stampPos using streamTurns.induct n with
  | case1 k stampPos more need avail copy ih =>
    have pos := stampPos.isLt
    have hcopy : copy = min (n - k) (1024 - stampPos) := rfl
    have stamp : nxmtStreamStampWords = 1024 := rfl
    rw [streamTurns, if_pos more]
    intro turn hturn
    rcases List.mem_cons.1 hturn with rfl | hturn
    · dsimp only
      omega
    · exact ih turn hturn
  | case2 k stampPos stop =>
    rw [streamTurns, if_neg stop]
    exact fun turn hturn => absurd hturn List.not_mem_nil

theorem streamTurns_tile (n k : Nat) (stampPos : Fin 1024) :
    (streamTurns n k stampPos).flatMap (fun turn => List.range' turn.1 turn.2.2) =
      List.range' k (n - k) := by
  have pairs := congrArg (List.map Prod.fst) (streamTurns_pairs n k stampPos)
  simp only [List.map_flatMap, List.map_map, Function.comp_def, List.map_id'] at pairs
  rw [← pairs]
  simp only [List.range'_eq_map_range]

/-- The writer stores the specified stream: every word of the chunk ends as
`nxmt_expected_value` has it, nothing else changes, and the `STREAM` loop ends
after copying each word once from inside the stamp. -/
theorem nxmtWriteChunk_stores (p : Nat) (chunkWords startWord : Word) (phase : NxmtPhase)
    (seed pass : Word) (m : Ram)
    (room : 8 * (startWord.toNat + chunkWords.toNat) ≤ 2 ^ 64) :
    let m' := nxmtWriteChunk ram p chunkWords.toNat startWord phase seed pass m
    let turns := streamTurns chunkWords.toNat 0 (streamStart startWord)
    (∀ k < chunkWords.toNat, m' (p + k) = nxmtExpectedValue seed phase pass
      (BitVec.ofNat 64 (8 * (startWord.toNat + k)))) ∧
    (∀ q, q < p ∨ p + chunkWords.toNat ≤ q → m' q = m q) ∧
    turns.flatMap (fun turn => List.range' turn.1 turn.2.2) = List.range chunkWords.toNat ∧
    ∀ turn ∈ turns, 0 < turn.2.2 ∧ turn.2.1 + turn.2.2 ≤ nxmtStreamStampWords := by
  intro m' turns
  have start : BitVec.ofNat 64 startWord.toNat = startWord := by simp
  have whole := nxmtWriteChunk_ram p chunkWords.toNat startWord.toNat room phase seed pass m
  rw [start] at whole
  refine ⟨fun k hk => ?_, fun q outside => ?_, ?_, fun turn hturn => ?_⟩
  · have here : p + k ∈ List.range' p chunkWords.toNat := List.mem_range'_1.2 (by omega)
    refine (whole (p + k)).trans ?_
    rw [if_pos here, Nat.add_sub_cancel_left]
    rfl
  · have away : q ∉ List.range' p chunkWords.toNat := fun hq => by
      have := List.mem_range'_1.1 hq
      omega
    exact (whole q).trans (if_neg away)
  · rw [List.range_eq_range']
    exact streamTurns_tile chunkWords.toNat 0 (streamStart startWord)
  · obtain ⟨moves, -, inside⟩ := streamTurns_inside _ _ _ turn hturn
    exact ⟨moves, inside⟩

/-- Two words of `NARROW` from word 3 on. -/
theorem nxmtWriteChunk_stores_two :
    let m' := nxmtWriteChunk ram 0 2 3 .narrow 0x1234 5 fun _ => 0
    m' 1 = nxmtExpectedValue 0x1234 .narrow 5 32 ∧ m' 2 = 0 := by
  obtain ⟨stored, kept, -⟩ := nxmtWriteChunk_stores 0 2 3 .narrow 0x1234 5 (fun _ => 0) (by decide)
  exact ⟨stored 1 (by decide), kept 2 (.inr (by decide))⟩

end NxMemTest
