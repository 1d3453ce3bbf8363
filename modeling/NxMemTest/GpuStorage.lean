import NxMemTest.MemoryMap
import Mathlib.Data.Set.Finite.Lattice

/-! The storage checks of `nx/gpu_pump.c` and `nx/gpu_bench.c`: which requests get
past them, and when what is laid out then lies in the storage. -/

namespace NxMemTest
open Interaction Program

/-! ### The bench -/

/-- `NXMT_GPU_CMD_MEM_BYTES` -/
def benchCmdBytes : Word := 64 * 1024

def benchRegions (storageBase bufferSizeAligned : Word) : List Region :=
  [⟨storageBase, benchCmdBytes⟩, ⟨storageBase + benchCmdBytes, bufferSizeAligned⟩,
    ⟨storageBase + benchCmdBytes + bufferSizeAligned, bufferSizeAligned⟩]

/-- What `nxmt_gpu_bench_run` lays out before it turns to the GPU; nothing if it
returns false at once. -/
def nxmtGpuBenchStorage (storageBase storageSize bufferSize : Word) (iterations : BitVec 32) :
    Option (List Region) :=
  if storageBase = 0 ∨ bufferSize = 0 ∨ iterations = 0 then none
  else
    let bufferSizeAligned := pumpBufferAligned bufferSize
    let required := benchCmdBytes + 2 * bufferSizeAligned
    if storageSize < required then none else some (benchRegions storageBase bufferSizeAligned)

/-! ### The rounded buffer size -/

def roundedBytes (bufferSize : Word) : Nat := (bufferSize.toNat + 4095) / 4096 * 4096

theorem pumpBufferAligned_toNat (bufferSize : Word) :
    (pumpBufferAligned bufferSize).toNat = roundedBytes bufferSize % 2 ^ 64 := by
  have bound := bufferSize.isLt
  have sum : (bufferSize + BitVec.ofNat 64 nxmtPageBytes - 1).toNat =
      (bufferSize.toNat + 4095) % 2 ^ 64 := by
    have page : BitVec.ofNat 64 nxmtPageBytes - 1 = 4095#64 := by decide
    have bytes : (4095#64).toNat = 4095 := rfl
    rw [add_sub_assoc, page, BitVec.toNat_add, bytes]
  rw [pumpBufferAligned, and_pageMask, sum, roundedBytes]
  omega

theorem le_roundedBytes (bufferSize : Word) : bufferSize.toNat ≤ roundedBytes bufferSize := by
  rw [roundedBytes]
  omega

theorem pumpBufferAligned_fits {bufferSize : Word} (some_bytes : bufferSize ≠ 0)
    (fits : roundedBytes bufferSize < 2 ^ 64) :
    (pumpBufferAligned bufferSize).toNat = roundedBytes bufferSize ∧
      0 < roundedBytes bufferSize := by
  have pos : bufferSize.toNat ≠ 0 := fun zero => some_bytes (BitVec.eq_of_toNat_eq zero)
  have round := le_roundedBytes bufferSize
  exact ⟨(pumpBufferAligned_toNat bufferSize).trans (Nat.mod_eq_of_lt fits), by omega⟩

theorem pumpBufferAligned_idem (bufferSize : Word) :
    pumpBufferAligned (pumpBufferAligned bufferSize) = pumpBufferAligned bufferSize := by
  apply BitVec.eq_of_toNat_eq
  have bound := bufferSize.isLt
  have once := pumpBufferAligned_toNat bufferSize
  rw [pumpBufferAligned_toNat, roundedBytes, once, roundedBytes]
  omega

/-- The check adds up modulo `2 ^ 64`. -/
theorem required_toNat (fixed bufferSize : Word) :
    (fixed + 2 * pumpBufferAligned bufferSize).toNat =
      (fixed.toNat + 2 * roundedBytes bufferSize) % 2 ^ 64 := by
  have two : (2 : Word).toNat = 2 := rfl
  rw [BitVec.toNat_add, BitVec.toNat_mul, pumpBufferAligned_toNat, two]
  omega

/-! ### Regions that fit -/

/-- The memory block that deko3d is to make of a region: sizes are 32 bits wide there. -/
def Region.memBlock (r : Region) : Region := ⟨r.base, (r.size.setWidth 32).setWidth 64⟩

theorem Region.memBlock_subset (r : Region) : r.memBlock.span ⊆ r.span := by
  have cut : (r.size.setWidth 32).toNat ≤ r.size.toNat := by
    rw [BitVec.toNat_setWidth]
    exact Nat.mod_le _ _
  have wide : r.memBlock.size.toNat = (r.size.setWidth 32).toNat :=
    BitVec.toNat_setWidth_of_le (by decide)
  exact Set.Ico_subset_Ico_right (Nat.add_le_add_left (wide.trans_le cut) _)

theorem Owned.memBlocks {storage : Region} {owners : List Region} (h : Owned storage owners) :
    Owned storage (owners.map Region.memBlock) := by
  constructor
  · refine List.pairwise_map.2 (h.disjoint.imp fun {r r'} apart => ?_)
    exact apart.mono r.memBlock_subset r'.memBlock_subset
  · intro block mem
    obtain ⟨r, hr, rfl⟩ := List.mem_map.1 mem
    exact r.memBlock_subset.trans (h.inside r hr)

/-- The regions hold a buffer of the wanted size, none is empty, and they lie apart
in the storage, as do the memory blocks that are made of them. -/
structure StorageHeld (storage : Region) (bufferSize bufferAligned : Word)
    (regions : List Region) : Prop where
  large : bufferSize ≤ bufferAligned
  nonempty : ∀ r ∈ regions, r.span.Nonempty
  owned : Owned storage regions
  memBlocks : Owned storage (regions.map Region.memBlock)

theorem Owned.sum_size_le {storage : Region} {owners : List Region} (h : Owned storage owners) :
    (owners.map fun r => r.size.toNat).sum ≤ storage.size.toNat := by
  have size : ∀ r : Region, r.span.ncard = r.size.toNat := by
    intro r
    rw [Region.span, ← Finset.coe_Ico, Set.ncard_coe_finset, Nat.card_Ico, Nat.add_sub_cancel_left]
  have finite : ∀ r : Region, r.span.Finite := fun r => Set.finite_Ico _ _
  have total : ∀ rs : List Region, (rs.Pairwise fun r r' => Disjoint r.span r'.span) →
      (⋃ r ∈ rs, r.span).ncard = (rs.map fun r => r.size.toNat).sum := by
    intro rs apart
    induction rs with
    | nil => simp
    | cons r rs ih =>
      obtain ⟨first, rest⟩ := List.pairwise_cons.1 apart
      have split : (⋃ r' ∈ r :: rs, r'.span) = r.span ∪ ⋃ r' ∈ rs, r'.span := by
        simp [Set.iUnion_or, Set.iUnion_union_distrib]
      have clear : Disjoint r.span (⋃ r' ∈ rs, r'.span) :=
        Set.disjoint_iUnion₂_right.2 first
      have others : (⋃ r' ∈ rs, r'.span).Finite :=
        Set.Finite.biUnion (List.finite_toSet rs) fun r' _ => finite r'
      rw [split, Set.ncard_union_eq clear (finite r) others, size, ih rest, List.map_cons,
        List.sum_cons]
  rw [← total owners h.disjoint, ← size storage]
  exact Set.ncard_le_ncard (Set.iUnion₂_subset h.inside) (finite storage)

theorem storageHeld_iff {storage : Region} {bufferSize : Word} {fixed : Nat}
    {regions : List Region} (some_bytes : bufferSize ≠ 0)
    (accepted : (fixed + 2 * roundedBytes bufferSize) % 2 ^ 64 ≤ storage.size.toNat)
    (sum : (regions.map fun r => r.size.toNat).sum =
      fixed + 2 * (pumpBufferAligned bufferSize).toNat)
    (laidOut : fixed + 2 * roundedBytes bufferSize ≤ storage.size.toNat →
      Region.Ascending (storage.base.toNat + storage.size.toNat) storage.base.toNat regions ∧
        ∀ r ∈ regions, 0 < r.size.toNat) :
    StorageHeld storage bufferSize (pumpBufferAligned bufferSize) regions ↔
      fixed + 2 * roundedBytes bufferSize < 2 ^ 64 := by
  constructor
  · intro held
    have large := BitVec.le_def.1 held.large
    have most := held.owned.sum_size_le
    have top := storage.size.isLt
    rw [sum] at most
    -- a size that rounds to `2 ^ 64` is taken for an empty buffer
    have fits : roundedBytes bufferSize < 2 ^ 64 := by
      have pos : bufferSize.toNat ≠ 0 := fun zero => some_bytes (BitVec.eq_of_toNat_eq zero)
      have bound := bufferSize.isLt
      rw [pumpBufferAligned_toNat] at large
      rw [roundedBytes] at large ⊢
      omega
    obtain ⟨aligned, -⟩ := pumpBufferAligned_fits some_bytes fits
    omega
  · intro fits
    rw [Nat.mod_eq_of_lt fits] at accepted
    obtain ⟨aligned, -⟩ := pumpBufferAligned_fits some_bytes (by omega)
    have round := le_roundedBytes bufferSize
    obtain ⟨ascending, each⟩ := laidOut accepted
    have owned : Owned storage regions := ⟨ascending.disjoint, ascending.subset⟩
    refine ⟨by rw [BitVec.le_def]; omega, fun r hr => ?_, owned, owned.memBlocks⟩
    have some_left := each r hr
    exact ⟨r.base.toNat, le_rfl, by omega⟩

theorem benchRegions_ascending {s bufferSizeAligned : Word} {high : Nat}
    (pos : 0 < bufferSizeAligned.toNat)
    (fits : s.toNat + 65536 + 2 * bufferSizeAligned.toNat ≤ high)
    (top : s.toNat + 65536 + 2 * bufferSizeAligned.toNat ≤ 2 ^ 64) :
    Region.Ascending high s.toNat (benchRegions s bufferSizeAligned) := by
  have cmd : benchCmdBytes.toNat = 65536 := by decide
  have s1 : (s + benchCmdBytes).toNat = s.toNat + benchCmdBytes.toNat :=
    toNat_add_of_lt (by omega)
  have s2 : (s + benchCmdBytes + bufferSizeAligned).toNat =
      (s + benchCmdBytes).toNat + bufferSizeAligned.toNat := toNat_add_of_lt (by omega)
  simp only [Region.Ascending, benchRegions]
  omega

/-! ### Which requests get past the checks -/

section
variable (storageBase storageSize bufferSize : Word)

theorem nxmtGpuPumpStart_refuses (stopRequested : Bool) :
    nxmtGpuPumpStart storageBase storageSize bufferSize stopRequested = pure false ↔
      (storageBase = 0 ∨ stopRequested = false ∨ bufferSize = 0) ∨
        storageSize.toNat < (86016 + 2 * roundedBytes bufferSize) % 2 ^ 64 := by
  have preamble : pumpPreambleBytes.toNat = 86016 := by decide
  have required := required_toNat pumpPreambleBytes bufferSize
  rw [preamble] at required
  rw [nxmtGpuPumpStart, ← required, ← BitVec.lt_def]
  by_cases missing : storageBase = 0 ∨ stopRequested = false ∨ bufferSize = 0
  · rw [if_pos missing]
    exact iff_of_true rfl (.inl missing)
  · rw [if_neg missing]
    dsimp only
    by_cases small : storageSize < pumpPreambleBytes + 2 * pumpBufferAligned bufferSize
    · rw [if_pos small]
      exact iff_of_true rfl (.inr small)
    · -- the thread is asked for
      rw [if_neg small]
      refine iff_of_false (fun same => ?_) fun refused => refused.elim missing small
      cases same

theorem nxmtGpuBenchStorage_eq (iterations : BitVec 32) :
    nxmtGpuBenchStorage storageBase storageSize bufferSize iterations =
      if (storageBase = 0 ∨ bufferSize = 0 ∨ iterations = 0) ∨
        storageSize.toNat < (65536 + 2 * roundedBytes bufferSize) % 2 ^ 64 then none
      else some (benchRegions storageBase (pumpBufferAligned bufferSize)) := by
  have cmd : benchCmdBytes.toNat = 65536 := by decide
  have required := required_toNat benchCmdBytes bufferSize
  rw [cmd] at required
  simp only [nxmtGpuBenchStorage, ← required, ← BitVec.lt_def]
  by_cases missing : storageBase = 0 ∨ bufferSize = 0 ∨ iterations = 0
  · rw [if_pos missing, if_pos (.inl missing)]
  · rw [if_neg missing]
    by_cases small : storageSize < benchCmdBytes + 2 * pumpBufferAligned bufferSize
    · rw [if_pos small, if_pos (.inr small)]
    · rw [if_neg small, if_neg (not_or.2 ⟨missing, small⟩)]

end

section
variable {storageBase storageSize bufferSize : Word}
  (fits : storageBase.toNat + storageSize.toNat ≤ 2 ^ 64) (some_bytes : bufferSize ≠ 0)
include fits some_bytes

theorem pumpStorage_held_iff
    (accepted : (86016 + 2 * roundedBytes bufferSize) % 2 ^ 64 ≤ storageSize.toNat) :
    StorageHeld ⟨storageBase, storageSize⟩ bufferSize (pumpBufferAligned bufferSize)
        (pumpThreadRegions storageBase (pumpBufferAligned bufferSize)) ↔
      86016 + 2 * roundedBytes bufferSize < 2 ^ 64 := by
  rw [pumpThreadRegions, pumpBufferAligned_idem]
  refine storageHeld_iff some_bytes accepted ?_ fun room => ?_
  · have cmd : pumpCmdBytes.toNat = 65536 := by decide
    have shader : pumpShaderBytes.toNat = 16384 := by decide
    have result : pumpResultBytes.toNat = 4096 := by decide
    simp only [pumpRegions, List.map_cons, List.map_nil, List.sum_cons, List.sum_nil, cmd, shader,
      result]
    omega
  · dsimp only at room
    have bound := storageSize.isLt
    obtain ⟨aligned, pos⟩ := pumpBufferAligned_fits some_bytes (by omega)
    rw [← aligned] at pos
    refine ⟨pumpRegions_ascending pos (by dsimp only; omega) (by dsimp only; omega), ?_⟩
    simp only [pumpRegions, List.forall_mem_cons]
    exact ⟨by decide, by decide, by decide, pos, pos, by simp⟩

theorem benchStorage_held_iff
    (accepted : (65536 + 2 * roundedBytes bufferSize) % 2 ^ 64 ≤ storageSize.toNat) :
    StorageHeld ⟨storageBase, storageSize⟩ bufferSize (pumpBufferAligned bufferSize)
        (benchRegions storageBase (pumpBufferAligned bufferSize)) ↔
      65536 + 2 * roundedBytes bufferSize < 2 ^ 64 := by
  refine storageHeld_iff some_bytes accepted ?_ fun room => ?_
  · have cmd : benchCmdBytes.toNat = 65536 := by decide
    simp only [benchRegions, List.map_cons, List.map_nil, List.sum_cons, List.sum_nil, cmd]
    omega
  · dsimp only at room
    have bound := storageSize.isLt
    obtain ⟨aligned, pos⟩ := pumpBufferAligned_fits some_bytes (by omega)
    rw [← aligned] at pos
    refine ⟨benchRegions_ascending pos (by dsimp only; omega) (by dsimp only; omega), ?_⟩
    simp only [benchRegions, List.forall_mem_cons]
    exact ⟨by decide, pos, pos, by simp⟩

end

/-- A request that gets past the check of `nxmt_gpu_pump_start` or `nxmt_gpu_bench_run`
has its regions in the storage exactly when their sizes add up below `2 ^ 64`. -/
theorem gpuStorage_held_iff (storageBase storageSize bufferSize : Word) (stopRequested : Bool)
    (iterations : BitVec 32) (fits : storageBase.toNat + storageSize.toNat ≤ 2 ^ 64) :
    ((nxmtGpuPumpStart storageBase storageSize bufferSize stopRequested ≠ pure false →
        StorageHeld ⟨storageBase, storageSize⟩ bufferSize (pumpBufferAligned bufferSize)
          (pumpThreadRegions storageBase (pumpBufferAligned bufferSize))) ↔
      ((storageBase = 0 ∨ stopRequested = false ∨ bufferSize = 0) ∨
        storageSize.toNat < (86016 + 2 * roundedBytes bufferSize) % 2 ^ 64) ∨
        86016 + 2 * roundedBytes bufferSize < 2 ^ 64) ∧
    ((∀ regions, nxmtGpuBenchStorage storageBase storageSize bufferSize iterations = some regions →
        StorageHeld ⟨storageBase, storageSize⟩ bufferSize (pumpBufferAligned bufferSize) regions) ↔
      ((storageBase = 0 ∨ bufferSize = 0 ∨ iterations = 0) ∨
        storageSize.toNat < (65536 + 2 * roundedBytes bufferSize) % 2 ^ 64) ∨
        65536 + 2 * roundedBytes bufferSize < 2 ^ 64) := by
  constructor
  · rw [ne_eq, nxmtGpuPumpStart_refuses, ← or_iff_not_imp_left]
    refine or_congr_right' fun accepted => ?_
    rw [not_or, not_or, not_or] at accepted
    exact pumpStorage_held_iff fits accepted.1.2.2 (Nat.le_of_not_lt accepted.2)
  · rw [nxmtGpuBenchStorage_eq]
    by_cases refused : (storageBase = 0 ∨ bufferSize = 0 ∨ iterations = 0) ∨
        storageSize.toNat < (65536 + 2 * roundedBytes bufferSize) % 2 ^ 64
    · rw [if_pos refused]
      exact iff_of_true (fun _ nothing => (Option.some_ne_none _ nothing.symm).elim) (.inl refused)
    · have accepted := refused
      rw [not_or, not_or, not_or] at accepted
      rw [if_neg refused, or_iff_right refused]
      simp only [Option.some.injEq, forall_eq']
      exact benchStorage_held_iff fits accepted.1.2.1 (Nat.le_of_not_lt accepted.2)

/-- Storage of 256 MiB for a buffer of 64 MiB. -/
theorem gpuStorage_held_iff_main :
    StorageHeld ⟨0x10000, 0x10000000⟩ 0x4000000 (pumpBufferAligned 0x4000000)
      (pumpThreadRegions 0x10000 (pumpBufferAligned 0x4000000)) := by
  refine (gpuStorage_held_iff 0x10000 0x10000000 0x4000000 true 1 (by decide)).1.2
    (.inr (by decide)) ?_
  rw [ne_eq, nxmtGpuPumpStart_refuses]
  decide

/-- Storage of 128 KiB is accepted for a buffer of half the address space. -/
theorem gpuStorage_wraps :
    let storage : Region := ⟨0x10000, 0x20000⟩
    let bufferSize : Word := 0x8000000000000000
    storage.base.toNat + storage.size.toNat ≤ 2 ^ 64 ∧
      (nxmtGpuPumpStart storage.base storage.size bufferSize true ≠ pure false ∧
        ¬ StorageHeld storage bufferSize (pumpBufferAligned bufferSize)
          (pumpThreadRegions storage.base (pumpBufferAligned bufferSize))) ∧
      nxmtGpuBenchStorage storage.base storage.size bufferSize 1 =
          some (benchRegions storage.base (pumpBufferAligned bufferSize)) ∧
        ¬ StorageHeld storage bufferSize (pumpBufferAligned bufferSize)
          (benchRegions storage.base (pumpBufferAligned bufferSize)) := by
  intro storage bufferSize
  refine ⟨by decide, ⟨?_, fun held => ?_⟩, by decide, fun held => ?_⟩
  · rw [ne_eq, nxmtGpuPumpStart_refuses]
    decide
  · exact absurd held.owned.sum_size_le (by decide)
  · exact absurd held.owned.sum_size_le (by decide)

end NxMemTest
