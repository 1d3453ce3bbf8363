import NxMemTest.Arena
import NxMemTest.Lib.Checked

/-! What `core/arena.c` is for: the arena is the largest run of whole pages in
its range, and the slices share its words out among the workers. -/

namespace NxMemTest

structure PageOf (base size page : Nat) : Prop where
  boundary : page % 4096 = 0
  above : base ≤ page
  below : page + 4096 ≤ base + size

theorem holdsPage_iff (base size : Nat) :
    HoldsPage base size ↔ base + size < 2 ^ 64 ∧ ∃ page, PageOf base size page := by
  rw [HoldsPage, firstBoundary, lastBoundary]
  refine and_congr_right fun _ => ⟨fun order => ?_, ?_⟩
  · exact ⟨(base + 4095) / 4096 * 4096, Nat.mul_mod_left _ _, by omega, by omega⟩
  · rintro ⟨page, boundary, above, below⟩
    omega

theorem nxmtArenaFromRange_again {base size : Word} (holds : HoldsPage base.toNat size.toNat) :
    let arena := nxmtArenaFromRange base size
    nxmtArenaFromRange arena.base arena.size = arena := by
  intro arena
  obtain ⟨baseVal, sizeVal, wordsVal⟩ := nxmtArenaFromRange_pages holds
  change arena.base.toNat = _ at baseVal
  change arena.size.toNat = _ at sizeVal
  change arena.words.toNat * 8 = arena.size.toNat at wordsVal
  rw [HoldsPage, firstBoundary, lastBoundary] at holds
  rw [firstBoundary] at baseVal
  rw [firstBoundary, lastBoundary] at sizeVal
  have first : firstBoundary arena.base.toNat = arena.base.toNat := by
    rw [firstBoundary]
    omega
  have last : lastBoundary arena.base.toNat arena.size.toNat =
      arena.base.toNat + arena.size.toNat := by
    rw [lastBoundary]
    omega
  have again : HoldsPage arena.base.toNat arena.size.toNat := by
    rw [HoldsPage, first, last]
    omega
  obtain ⟨baseVal', sizeVal', wordsVal'⟩ := nxmtArenaFromRange_pages again
  rw [first] at baseVal'
  rw [first, last, Nat.add_sub_cancel_left] at sizeVal'
  have words : (nxmtArenaFromRange arena.base arena.size).words.toNat = arena.words.toNat := by
    omega
  calc nxmtArenaFromRange arena.base arena.size
      = ⟨(nxmtArenaFromRange arena.base arena.size).base,
          (nxmtArenaFromRange arena.base arena.size).size,
          (nxmtArenaFromRange arena.base arena.size).words⟩ := rfl
    _ = ⟨arena.base, arena.size, arena.words⟩ := by
      rw [BitVec.eq_of_toNat_eq baseVal', BitVec.eq_of_toNat_eq sizeVal',
        BitVec.eq_of_toNat_eq words]

theorem nxmtArenaFromRange_contains {base size : Word}
    (holds : HoldsPage base.toNat size.toNat) :
    let arena := nxmtArenaFromRange base size
    arena.base.toNat % 4096 = 0 ∧ arena.base.toNat + arena.size.toNat < 2 ^ 64 ∧
      base.toNat ≤ arena.base.toNat ∧
      arena.base.toNat + arena.size.toNat ≤ base.toNat + size.toNat ∧
      ∀ page, PageOf base.toNat size.toNat page →
        PageOf arena.base.toNat arena.size.toNat page := by
  intro arena
  obtain ⟨baseVal, sizeVal, _⟩ := nxmtArenaFromRange_pages holds
  change arena.base.toNat = _ at baseVal
  change arena.size.toNat = _ at sizeVal
  rw [HoldsPage, firstBoundary, lastBoundary] at holds
  rw [firstBoundary] at baseVal
  rw [firstBoundary, lastBoundary] at sizeVal
  refine ⟨by omega, by omega, by omega, by omega, fun page inside => ?_⟩
  have boundary := inside.boundary
  have above := inside.above
  have below := inside.below
  exact ⟨boundary, by omega, by omega⟩

/-- The arena of a range is its largest run of whole pages. -/
theorem nxmtArenaFromRange_largest (base size : Word) :
    let arena := nxmtArenaFromRange base size
    arena.words.toNat * 8 = arena.size.toNat ∧ arena.size.toNat % 4096 = 0 ∧
      (base.toNat + size.toNat < 2 ^ 64 ∧ (∃ page, PageOf base.toNat size.toNat page) →
        arena.base.toNat % 4096 = 0 ∧ arena.base.toNat + arena.size.toNat < 2 ^ 64 ∧
          base.toNat ≤ arena.base.toNat ∧
          arena.base.toNat + arena.size.toNat ≤ base.toNat + size.toNat ∧
          ∀ page, PageOf base.toNat size.toNat page →
            PageOf arena.base.toNat arena.size.toNat page) ∧
      (¬ (base.toNat + size.toNat < 2 ^ 64 ∧ ∃ page, PageOf base.toNat size.toNat page) →
        arena.size = 0 ∧ arena.words = 0) ∧
      (arena.size ≠ 0 → nxmtArenaFromRange arena.base arena.size = arena) := by
  intro arena
  rw [← holdsPage_iff]
  by_cases holds : HoldsPage base.toNat size.toNat
  · obtain ⟨_, sizeVal, wordsVal⟩ := nxmtArenaFromRange_pages holds
    have whole : arena.size.toNat % 4096 = 0 := by
      change arena.size.toNat = _ at sizeVal
      rw [firstBoundary, lastBoundary] at sizeVal
      omega
    exact ⟨wordsVal, whole, fun _ => nxmtArenaFromRange_contains holds,
      fun none => absurd holds none, fun _ => nxmtArenaFromRange_again holds⟩
  · have empty := nxmtArenaFromRange_empty holds
    change arena.size = 0 ∧ arena.words = 0 at empty
    rw [empty.1, empty.2]
    exact ⟨rfl, rfl, fun h => absurd h holds, fun _ => ⟨rfl, rfl⟩, fun h => absurd rfl h⟩

/-! ### Slices -/

/-- `nxmt_split_block_start` with no product or sum that wraps. -/
def checkedSplitBlockStart (totalWords : Word) (workerCount workerIndex : BitVec 32) :
    Option Word :=
  if workerCount = 0 ∨ workerIndex > workerCount then some 0
  else do
    let base := totalWords / workerCount.setWidth 64
    let remainder := totalWords % workerCount.setWidth 64
    let extra := if workerIndex.setWidth 64 < remainder then workerIndex.setWidth 64 else remainder
    let before ← Checked.mul base (workerIndex.setWidth 64)
    Checked.add before extra

def checkedSplitBlockSize (totalWords : Word) (workerCount workerIndex : BitVec 32) :
    Option Word :=
  if workerCount = 0 ∨ workerIndex ≥ workerCount then some 0
  else
    let base := totalWords / workerCount.setWidth 64
    let remainder := totalWords % workerCount.setWidth 64
    Checked.add base (if workerIndex.setWidth 64 < remainder then 1 else 0)

theorem checkedSplitBlockStart_eq (n : Word) {W i : BitVec 32} (hW : W ≠ 0) (hi : i ≤ W) :
    checkedSplitBlockStart n W i = some (nxmtSplitBlockStart n W i) := by
  have small : Partition.start n.toNat W.toNat i.toNat ≤ n.toNat :=
    Partition.start_le (BitVec.le_def.1 hi) (workerCount_pos hW)
  rw [Partition.start] at small
  have bound := n.isLt
  have product : (n / W.setWidth 64).toNat * (i.setWidth 64).toNat < 2 ^ 64 := by
    rw [BitVec.toNat_udiv, toNat_widen, toNat_widen]
    omega
  have value : (n / W.setWidth 64 * i.setWidth 64).toNat = n.toNat / W.toNat * i.toNat := by
    rw [BitVec.toNat_mul, Nat.mod_eq_of_lt product, BitVec.toNat_udiv, toNat_widen, toNat_widen]
  rw [checkedSplitBlockStart, nxmtSplitBlockStart, if_neg (startGuard hW hi),
    if_neg (startGuard hW hi)]
  simp only [Checked.mul_eq product, Option.bind_eq_bind, Option.bind_some]
  exact Checked.add_eq (by rw [value, splitExtra_toNat]; omega)

theorem checkedSplitBlockSize_eq (n : Word) {W i : BitVec 32} (hi : i < W) :
    checkedSplitBlockSize n W i = some (nxmtSplitBlockSize n W i) := by
  have small : Partition.size n.toNat W.toNat i.toNat ≤ n.toNat :=
    Partition.size_le (BitVec.lt_def.1 hi)
  rw [Partition.size] at small
  have bound := n.isLt
  rw [checkedSplitBlockSize, nxmtSplitBlockSize, if_neg (sizeGuard hi), if_neg (sizeGuard hi)]
  exact Checked.add_eq (by
    rw [BitVec.toNat_udiv, toNat_widen, splitLonger_toNat]
    omega)

/-! The slices are the blocks of the partition. -/

theorem workers_ne_zero {W i : BitVec 32} (hi : i < W) : W ≠ 0 := by
  rintro rfl
  exact absurd (BitVec.lt_def.1 hi) (Nat.not_lt_zero _)

theorem toNat_add_one {W i : BitVec 32} (hi : i < W) : (i + 1).toNat = i.toNat + 1 := by
  have lt := BitVec.lt_def.1 hi
  have one : (1 : BitVec 32).toNat = 1 := rfl
  have top := W.isLt
  rw [BitVec.toNat_add, one]
  omega

section
variable (totalWords : Word) {W : BitVec 32}

theorem slice_room {i : BitVec 32} (hi : i < W) :
    (nxmtSplitBlockStart totalWords W i).toNat + (nxmtSplitBlockSize totalWords W i).toNat =
        Partition.start totalWords.toNat W.toNat i.toNat +
          Partition.size totalWords.toNat W.toNat i.toNat ∧
      (nxmtSplitBlockStart totalWords W i).toNat +
        (nxmtSplitBlockSize totalWords W i).toNat < 2 ^ 64 := by
  have hW := workers_ne_zero hi
  have le := Partition.end_le (n := totalWords.toNat) (BitVec.lt_def.1 hi)
  have bound := totalWords.isLt
  rw [nxmtSplitBlockStart_toNat totalWords W i hW (BitVec.le_of_lt hi),
    nxmtSplitBlockSize_toNat totalWords W i hi]
  exact ⟨rfl, by omega⟩

theorem slice_end {i : BitVec 32} (hi : i < W) :
    (nxmtSplitBlockStart totalWords W i + nxmtSplitBlockSize totalWords W i).toNat =
      Partition.start totalWords.toNat W.toNat i.toNat +
        Partition.size totalWords.toNat W.toNat i.toNat := by
  obtain ⟨value, room⟩ := slice_room totalWords hi
  rw [BitVec.toNat_add, Nat.mod_eq_of_lt room, value]

theorem slice_meets {i : BitVec 32} (hi : i < W) :
    nxmtSplitBlockStart totalWords W i + nxmtSplitBlockSize totalWords W i =
      nxmtSplitBlockStart totalWords W (i + 1) := by
  have hW := workers_ne_zero hi
  have le : i + 1 ≤ W := by
    rw [BitVec.le_def, toNat_add_one hi]
    exact BitVec.lt_def.1 hi
  apply BitVec.eq_of_toNat_eq
  rw [slice_end totalWords hi, nxmtSplitBlockStart_toNat totalWords W _ hW le, toNat_add_one hi,
    Partition.start_succ]

theorem existsUnique_slice (hW : W ≠ 0) {x : Word} (hx : x < totalWords) :
    ∃! i, i < W ∧ nxmtSplitBlockStart totalWords W i ≤ x ∧
      x < nxmtSplitBlockStart totalWords W i + nxmtSplitBlockSize totalWords W i := by
  obtain ⟨i, hi, low, high⟩ :=
    Partition.exists_block_of_lt (workerCount_pos hW) (BitVec.lt_def.1 hx)
  have start : ∀ j < W, (nxmtSplitBlockStart totalWords W j).toNat =
      Partition.start totalWords.toNat W.toNat j.toNat := fun j hj =>
    nxmtSplitBlockStart_toNat totalWords W j hW (BitVec.le_of_lt hj)
  have top := W.isLt
  have value : (BitVec.ofNat 32 i).toNat = i := by
    rw [BitVec.toNat_ofNat, Nat.mod_eq_of_lt (by omega)]
  have worker : BitVec.ofNat 32 i < W := by
    rw [BitVec.lt_def, value]
    exact hi
  refine ⟨BitVec.ofNat 32 i, ⟨worker, ?_, ?_⟩, ?_⟩
  · rw [BitVec.le_def, start _ worker, value]
    exact low
  · rw [BitVec.lt_def, slice_end totalWords worker, value]
    exact high
  · rintro j ⟨hj, low', high'⟩
    rw [BitVec.le_def, start j hj] at low'
    rw [BitVec.lt_def, slice_end totalWords hj] at high'
    apply BitVec.eq_of_toNat_eq
    rw [value]
    exact Partition.block_unique low' high' low high

end

/-- The slices cut the words into consecutive blocks, one for each worker. -/
theorem slices_partition (totalWords : Word) (W : BitVec 32) (some_worker : 1 ≤ W) :
    let s := nxmtSplitBlockStart totalWords W
    let n := nxmtSplitBlockSize totalWords W
    s 0 = 0 ∧ s W = totalWords ∧
      (∀ i ≤ W, checkedSplitBlockStart totalWords W i = some (s i)) ∧
      (∀ i < W, checkedSplitBlockSize totalWords W i = some (n i) ∧
        Checked.add (s i) (n i) = some (s (i + 1))) ∧
      (∀ i < W, ∀ j < W, (n i).toNat ≤ (n j).toNat + 1 ∧ (i ≤ j → n j ≤ n i)) ∧
      ∀ x < totalWords, ∃! i, i < W ∧ s i ≤ x ∧ x < s i + n i := by
  intro s n
  have hW : W ≠ 0 := by
    rintro rfl
    exact absurd some_worker (by decide)
  have start : ∀ i ≤ W, (s i).toNat = Partition.start totalWords.toNat W.toNat i.toNat :=
    fun i hi => nxmtSplitBlockStart_toNat totalWords W i hW hi
  have size : ∀ i < W, (n i).toNat = Partition.size totalWords.toNat W.toNat i.toNat :=
    fun i hi => nxmtSplitBlockSize_toNat totalWords W i hi
  have first : (s 0).toNat = 0 :=
    (start 0 (BitVec.le_def.2 (Nat.zero_le _))).trans (Partition.start_zero _ _)
  have last : (s W).toNat = totalWords.toNat :=
    (start W (BitVec.le_refl W)).trans (Partition.start_self (workerCount_pos hW))
  refine ⟨BitVec.eq_of_toNat_eq first, BitVec.eq_of_toNat_eq last,
    fun i hi => checkedSplitBlockStart_eq totalWords hW hi, fun i hi => ?_,
    fun i hi j hj => ?_, fun x hx => existsUnique_slice totalWords hW hx⟩
  · exact ⟨checkedSplitBlockSize_eq totalWords hi,
      (Checked.add_eq (slice_room totalWords hi).2).trans (congrArg some (slice_meets totalWords hi))⟩
  · rw [BitVec.le_def, BitVec.le_def, size i hi, size j hj]
    exact ⟨Partition.size_le_succ _ _ _ _, Partition.size_antitone _ _⟩

theorem slices_partition_fewWords :
    nxmtSplitBlockStart 2 3 3 = 2 ∧ ∀ x < (2 : Word), ∃! i, i < (3 : BitVec 32) ∧
      nxmtSplitBlockStart 2 3 i ≤ x ∧
        x < nxmtSplitBlockStart 2 3 i + nxmtSplitBlockSize 2 3 i :=
  have all := slices_partition 2 3 (by decide)
  ⟨all.2.1, all.2.2.2.2.2⟩

end NxMemTest
