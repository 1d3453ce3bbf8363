import NxMemTest.Types
import NxMemTest.Lib.Partition

/-! `source/core/arena.c`: the page-aligned test arena and the slices in which
its words are shared out to the workers. -/

namespace NxMemTest

def alignUpU64 (value align : Word) : Option Word :=
  let mask := align - 1
  if value > uint64Max - mask then none else some ((value + mask) &&& ~~~mask)

def alignDownU64 (value align : Word) : Word := value &&& ~~~(align - 1)

def zeroArena (base : Word) : NxmtArena := ⟨base, 0, 0⟩

def nxmtArenaFromRange (base size : Word) : NxmtArena :=
  match alignUpU64 base (BitVec.ofNat 64 nxmtPageBytes) with
  | none => zeroArena base
  | some alignedBase =>
    if size > uint64Max - base then zeroArena alignedBase
    else
      let alignedEnd := alignDownU64 (base + size) (BitVec.ofNat 64 nxmtPageBytes)
      if alignedEnd ≤ alignedBase then zeroArena alignedBase
      else
        let size := alignedEnd - alignedBase
        ⟨alignedBase, size, size / BitVec.ofNat 64 nxmtWordBytes⟩

def nxmtSplitBlockStart (totalWords : Word) (workerCount workerIndex : BitVec 32) : Word :=
  if workerCount = 0 ∨ workerIndex > workerCount then 0
  else
    let base := totalWords / workerCount.setWidth 64
    let remainder := totalWords % workerCount.setWidth 64
    let extra := if workerIndex.setWidth 64 < remainder then workerIndex.setWidth 64 else remainder
    base * workerIndex.setWidth 64 + extra

def nxmtSplitBlockSize (totalWords : Word) (workerCount workerIndex : BitVec 32) : Word :=
  if workerCount = 0 ∨ workerIndex ≥ workerCount then 0
  else
    let base := totalWords / workerCount.setWidth 64
    let remainder := totalWords % workerCount.setWidth 64
    base + if workerIndex.setWidth 64 < remainder then 1 else 0

/-! ### Page alignment -/

theorem alignDownU64_page (x : Word) :
    (alignDownU64 x (BitVec.ofNat 64 nxmtPageBytes)).toNat = x.toNat / 4096 * 4096 := by
  have shape : alignDownU64 x (BitVec.ofNat 64 nxmtPageBytes) = (x >>> 12) <<< 12 := by
    rw [alignDownU64]
    ext i hi
    have mask : (~~~(BitVec.ofNat 64 nxmtPageBytes - 1)) = (BitVec.allOnes 64) <<< 12 := by decide
    simp only [mask, BitVec.getElem_and, BitVec.getElem_shiftLeft, BitVec.getElem_allOnes,
      BitVec.getElem_ushiftRight]
    by_cases low : i < 12
    · simp [low]
    · simp [low, Nat.add_sub_cancel' (Nat.le_of_not_lt low), BitVec.getLsbD_eq_getElem hi]
  rw [shape, BitVec.toNat_shiftLeft, BitVec.toNat_ushiftRight, Nat.shiftRight_eq_div_pow,
    Nat.shiftLeft_eq]
  have bound := x.isLt
  omega

theorem alignUpU64_cases (x : Word) :
    (x.toNat + 4095 < 2 ^ 64 ∧ ∃ y, alignUpU64 x (BitVec.ofNat 64 nxmtPageBytes) = some y ∧
        y.toNat = (x.toNat + 4095) / 4096 * 4096) ∨
      (2 ^ 64 ≤ x.toNat + 4095 ∧ alignUpU64 x (BitVec.ofNat 64 nxmtPageBytes) = none) := by
  have mask : BitVec.ofNat 64 nxmtPageBytes - 1 = 4095#64 := by decide
  have top : (uint64Max - 4095#64).toNat = 2 ^ 64 - 1 - 4095 := by decide
  simp only [alignUpU64, mask, gt_iff_lt, BitVec.lt_def, top]
  by_cases room : x.toNat + 4095 < 2 ^ 64
  · have down := alignDownU64_page (x + 4095#64)
    rw [alignDownU64, mask, BitVec.toNat_add, BitVec.toNat_ofNat,
      Nat.mod_eq_of_lt (by omega : x.toNat + 4095 % 2 ^ 64 < 2 ^ 64)] at down
    exact Or.inl ⟨room, _, if_neg (by omega), down⟩
  · exact Or.inr ⟨by omega, if_pos (by omega)⟩

theorem alignUpU64_page {x y : Word} (h : alignUpU64 x (BitVec.ofNat 64 nxmtPageBytes) = some y) :
    y.toNat = (x.toNat + 4095) / 4096 * 4096 ∧ x.toNat + 4095 < 2 ^ 64 := by
  rcases alignUpU64_cases x with ⟨room, z, up, value⟩ | ⟨_, up⟩
  · rw [up, Option.some.injEq] at h
    exact ⟨h ▸ value, room⟩
  · rw [up] at h
    cases h

/-- What every arena that a run works on satisfies: whole pages, whole words
and no wrap past the end of the address space. -/
structure NxmtArena.WellFormed (a : NxmtArena) : Prop where
  base_page : a.base.toNat % 4096 = 0
  size_page : a.size.toNat % 4096 = 0
  words_size : a.words.toNat * 8 = a.size.toNat
  no_wrap : a.base.toNat + a.size.toNat < 2 ^ 64

def firstBoundary (base : Nat) : Nat := (base + 4095) / 4096 * 4096

def lastBoundary (base size : Nat) : Nat := (base + size) / 4096 * 4096

def HoldsPage (base size : Nat) : Prop :=
  base + size < 2 ^ 64 ∧ firstBoundary base < lastBoundary base size

theorem nxmtArenaFromRange_pages {base size : Word} (h : HoldsPage base.toNat size.toNat) :
    let arena := nxmtArenaFromRange base size
    arena.base.toNat = firstBoundary base.toNat ∧
      arena.size.toNat = lastBoundary base.toNat size.toNat - firstBoundary base.toNat ∧
      arena.words.toNat * 8 = arena.size.toNat := by
  obtain ⟨fits, order⟩ := h
  rw [firstBoundary, lastBoundary] at order
  rcases alignUpU64_cases base with ⟨_, up, found, upVal⟩ | ⟨none, _⟩
  · have most : uint64Max.toNat = 2 ^ 64 - 1 := BitVec.toNat_allOnes
    have room : ¬ size > uint64Max - base := by
      rw [gt_iff_lt, BitVec.lt_def, BitVec.toNat_sub_of_le (BitVec.le_def.2 (by omega)), most]
      omega
    have downVal := alignDownU64_page (base + size)
    rw [BitVec.toNat_add, Nat.mod_eq_of_lt fits] at downVal
    have above : ¬ alignDownU64 (base + size) (BitVec.ofNat 64 nxmtPageBytes) ≤ up := by
      rw [BitVec.le_def, downVal, upVal]
      omega
    have gap := BitVec.toNat_sub_of_le (BitVec.le_of_lt (BitVec.not_le.1 above))
    rw [downVal, upVal] at gap
    have eight : (BitVec.ofNat 64 nxmtWordBytes).toNat = 8 := rfl
    rw [nxmtArenaFromRange, found]
    simp only [if_neg room, if_neg above, firstBoundary, lastBoundary]
    refine ⟨upVal, gap, ?_⟩
    rw [BitVec.toNat_udiv, eight, gap]
    omega
  · omega

theorem nxmtArenaFromRange_empty {base size : Word} (h : ¬ HoldsPage base.toNat size.toNat) :
    (nxmtArenaFromRange base size).size = 0 ∧ (nxmtArenaFromRange base size).words = 0 := by
  rw [HoldsPage, firstBoundary, lastBoundary] at h
  rcases alignUpU64_cases base with ⟨_, up, found, upVal⟩ | ⟨_, none⟩
  · rw [nxmtArenaFromRange, found]
    dsimp only
    have most : uint64Max.toNat = 2 ^ 64 - 1 := BitVec.toNat_allOnes
    by_cases long : size > uint64Max - base
    · rw [if_pos long]
      exact ⟨rfl, rfl⟩
    · have fits : base.toNat + size.toNat < 2 ^ 64 := by
        have bound := base.isLt
        rw [gt_iff_lt, BitVec.lt_def, BitVec.toNat_sub_of_le (BitVec.le_def.2 (by omega)),
          most] at long
        omega
      have downVal := alignDownU64_page (base + size)
      rw [BitVec.toNat_add, Nat.mod_eq_of_lt fits] at downVal
      have below : alignDownU64 (base + size) (BitVec.ofNat 64 nxmtPageBytes) ≤ up := by
        rw [BitVec.le_def, downVal, upVal]
        omega
      rw [if_neg long, if_pos below]
      exact ⟨rfl, rfl⟩
  · rw [nxmtArenaFromRange, none]
    exact ⟨rfl, rfl⟩

theorem nxmtArenaFromRange_wellFormed {base size : Word}
    (h : (nxmtArenaFromRange base size).words ≠ 0) :
    (nxmtArenaFromRange base size).WellFormed := by
  by_cases holds : HoldsPage base.toNat size.toNat
  · obtain ⟨baseVal, sizeVal, wordsVal⟩ := nxmtArenaFromRange_pages holds
    obtain ⟨fits, order⟩ := holds
    rw [firstBoundary] at baseVal
    rw [firstBoundary, lastBoundary] at order sizeVal
    refine ⟨?_, ?_, wordsVal, ?_⟩ <;> omega
  · exact absurd (nxmtArenaFromRange_empty holds).2 h

theorem NxmtArena.WellFormed.words_lt {a : NxmtArena} (h : a.WellFormed) :
    a.words.toNat < 2 ^ 61 := by
  have := h.words_size
  have := a.size.isLt
  omega

/-! ### Slices -/

theorem toNat_widen (x : BitVec 32) : (x.setWidth 64).toNat = x.toNat := by
  have := x.isLt
  simp only [BitVec.toNat_setWidth]
  omega

theorem workerCount_pos {W : BitVec 32} (hW : W ≠ 0) : 0 < W.toNat := by
  rw [Nat.pos_iff_ne_zero]
  exact fun h => hW (BitVec.eq_of_toNat_eq h)

theorem splitExtra_toNat (n : Word) (W i : BitVec 32) :
    (if i.setWidth 64 < n % W.setWidth 64 then i.setWidth 64 else n % W.setWidth 64).toNat =
      min i.toNat (n.toNat % W.toNat) := by
  split <;> rename_i h <;> simp only [BitVec.lt_def, BitVec.toNat_umod, toNat_widen] at h ⊢ <;>
    omega

theorem splitLonger_toNat (n : Word) (W i : BitVec 32) :
    (if i.setWidth 64 < n % W.setWidth 64 then 1 else 0 : Word).toNat =
      if i.toNat < n.toNat % W.toNat then 1 else 0 := by
  simp only [BitVec.lt_def, BitVec.toNat_umod, toNat_widen]
  split <;> rfl

theorem startGuard {W i : BitVec 32} (hW : W ≠ 0) (hi : i ≤ W) : ¬ (W = 0 ∨ i > W) := by
  rintro (h | h)
  · exact hW h
  · exact absurd hi (BitVec.not_le.2 h)

theorem sizeGuard {W i : BitVec 32} (hi : i < W) : ¬ (W = 0 ∨ i ≥ W) := by
  have lt : i.toNat < W.toNat := BitVec.lt_def.1 hi
  rintro (h | h)
  · rw [h] at lt
    simp at lt
  · exact absurd hi (BitVec.not_lt.2 h)

theorem nxmtSplitBlockStart_toNat (n : Word) (W i : BitVec 32) (hW : W ≠ 0) (hi : i ≤ W) :
    (nxmtSplitBlockStart n W i).toNat = Partition.start n.toNat W.toNat i.toNat := by
  have small : Partition.start n.toNat W.toNat i.toNat ≤ n.toNat :=
    Partition.start_le (BitVec.le_def.1 hi) (workerCount_pos hW)
  have bound := n.isLt
  rw [nxmtSplitBlockStart, if_neg (startGuard hW hi), BitVec.toNat_add, splitExtra_toNat,
    BitVec.toNat_mul, BitVec.toNat_udiv, toNat_widen, toNat_widen]
  rw [Partition.start] at small ⊢
  rw [Nat.mod_add_mod, Nat.mod_eq_of_lt (by omega)]

theorem nxmtSplitBlockSize_toNat (n : Word) (W i : BitVec 32) (hi : i < W) :
    (nxmtSplitBlockSize n W i).toNat = Partition.size n.toNat W.toNat i.toNat := by
  have small : Partition.size n.toNat W.toNat i.toNat ≤ n.toNat :=
    Partition.size_le (BitVec.lt_def.1 hi)
  have bound := n.isLt
  rw [nxmtSplitBlockSize, if_neg (sizeGuard hi), BitVec.toNat_add, splitLonger_toNat,
    BitVec.toNat_udiv, toNat_widen]
  rw [Partition.size] at small ⊢
  rw [Nat.mod_eq_of_lt (by omega)]

end NxMemTest
