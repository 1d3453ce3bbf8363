import NxMemTest.Arena

/-! `source/nx/platform_nx.c`: how the start-up hook cuts the override heap into
the heap of the C runtime and the test arena, and what of it main gets to see. -/

namespace NxMemTest

def nxmtGibBytes : Nat := 1024 * 1024 * 1024

/-- `align_up_u64` on an address. -/
def alignUpUintptr (value align : Word) : Option Word :=
  let mask := align - 1
  if value > uint64Max - mask then none else some ((value + mask) &&& ~~~mask)

def nxmtRuntimeHeapReserve (overrideHeapSize : Word) : Word :=
  if overrideHeapSize < 4 * BitVec.ofNat 64 nxmtMibBytes then 0
  else if overrideHeapSize < 64 * BitVec.ofNat 64 nxmtMibBytes then
    alignDownU64 (overrideHeapSize / 2) (BitVec.ofNat 64 nxmtPageBytes)
  else if overrideHeapSize < 512 * BitVec.ofNat 64 nxmtMibBytes then
    16 * BitVec.ofNat 64 nxmtMibBytes
  else 32 * BitVec.ofNat 64 nxmtMibBytes

structure HeapLayout where
  fakeHeapStart : Word
  fakeHeapEnd : Word
  gTestArenaAddr : Word
  gTestArenaSize : Word
  deriving DecidableEq, Repr

/-- `envHeapOverride` is the address and size of the override heap, if there is
one; `svcSetHeapSize` says whether that call succeeded and where it put the heap.
`none` is an abort. -/
def libnxInitheap (envHeapOverride : Option (Word × Word)) (svcSetHeapSize : Bool × Word) :
    Option HeapLayout :=
  let pageMask := ~~~(BitVec.ofNat 64 nxmtPageBytes - 1)
  match envHeapOverride with
  | some (rawStart, rawSize) =>
    match alignUpUintptr rawStart (BitVec.ofNat 64 nxmtPageBytes) with
    | some alignedStart =>
      let prefixSize := alignedStart - rawStart
      if rawSize > prefixSize then
        let usableSize := (rawSize - prefixSize) &&& pageMask
        if usableSize ≠ 0 then
          let reserve := nxmtRuntimeHeapReserve usableSize &&& pageMask
          if reserve ≠ 0 ∧ usableSize > reserve then
            some ⟨alignedStart, alignedStart + reserve, alignedStart + reserve,
              usableSize - reserve⟩
          else some ⟨alignedStart, alignedStart + usableSize, 0, 0⟩
        else none
      else none
    | none => none
  | none =>
    let heapSize := 32 * BitVec.ofNat 64 nxmtMibBytes
    if svcSetHeapSize.1 ∧ svcSetHeapSize.2 ≠ 0 then
      some ⟨svcSetHeapSize.2, svcSetHeapSize.2 + heapSize, 0, 0⟩
    else none

inductive NxmtMemorySource where
  | none
  | physicalPools
  | processTotal
  | overrideHeap
  deriving DecidableEq, Repr

structure NxmtMemorySelection where
  total : Word
  source : NxmtMemorySource
  extendedMemoryDetected : Bool
  deriving DecidableEq, Repr

def selectMemorySource (selection : NxmtMemorySelection) (available : Bool) (total : Word)
    (source : NxmtMemorySource) : NxmtMemorySelection :=
  if available = false ∨ total = 0 then selection
  else
    let selection := if total > 4 * BitVec.ofNat 64 nxmtGibBytes then
        { selection with extendedMemoryDetected := true } else selection
    if selection.source = .none ∨ total > selection.total then
      { selection with total := total, source := source }
    else selection

def nxmtSelectSystemMemoryTotal (hasPhysicalPoolsTotal : Bool) (physicalPoolsTotal : Word)
    (hasProcessTotal : Bool) (processTotal : Word) (hasOverrideHeap : Bool)
    (overrideHeapSize : Word) : NxmtMemorySelection :=
  let selection : NxmtMemorySelection := ⟨0, .none, false⟩
  let selection :=
    selectMemorySource selection hasPhysicalPoolsTotal physicalPoolsTotal .physicalPools
  let selection := selectMemorySource selection hasProcessTotal processTotal .processTotal
  selectMemorySource selection hasOverrideHeap overrideHeapSize .overrideHeap

def nxmtSelectLaunchSafeMemoryTotal (hasOverrideHeap : Bool) (overrideHeapSize : Word) :
    NxmtMemorySelection :=
  nxmtSelectSystemMemoryTotal false 0 false 0 hasOverrideHeap overrideHeapSize

/-- The fields that `nxmt_platform_get_memory` fills in; the others stay zero. -/
structure NxmtPlatformMemory where
  overrideHeapAddr : Word
  overrideHeapSize : Word
  effectiveTotalMemory : Word
  switchTotalMemory : Word
  effectiveTotalSource : NxmtMemorySource
  hasHeapOverride : Bool
  hasEffectiveTotal : Bool
  hasSwitchTotal : Bool
  extendedMemoryDetected : Bool
  deriving DecidableEq, Repr

def nxmtPlatformGetMemory (envHeapOverride : Option (Word × Word)) (globals : HeapLayout) :
    NxmtPlatformMemory :=
  let overridePresent := envHeapOverride.isSome
  let arenaUsable : Bool :=
    overridePresent ∧ globals.gTestArenaAddr ≠ 0 ∧ globals.gTestArenaSize ≠ 0
  let rawOverrideHeapSize := match envHeapOverride with
    | some (_, size) => size
    | none => 0
  let selected := nxmtSelectLaunchSafeMemoryTotal overridePresent rawOverrideHeapSize
  let hasEffectiveTotal : Bool := selected.source ≠ .none
  { overrideHeapAddr := if arenaUsable then globals.gTestArenaAddr else 0
    overrideHeapSize := if arenaUsable then globals.gTestArenaSize else 0
    effectiveTotalMemory := selected.total
    switchTotalMemory := selected.total
    effectiveTotalSource := selected.source
    hasHeapOverride := arenaUsable
    hasEffectiveTotal := hasEffectiveTotal
    hasSwitchTotal := hasEffectiveTotal
    extendedMemoryDetected := selected.extendedMemoryDetected }

/-! ### The cut of the override heap -/

theorem and_pageMask (x : Word) :
    (x &&& ~~~(BitVec.ofNat 64 nxmtPageBytes - 1)).toNat = x.toNat / 4096 * 4096 :=
  alignDownU64_page x

theorem alignUpUintptr_page {x y : Word}
    (h : alignUpUintptr x (BitVec.ofNat 64 nxmtPageBytes) = some y) :
    y.toNat = (x.toNat + 4095) / 4096 * 4096 ∧ x.toNat + 4095 < 2 ^ 64 := alignUpU64_page h

theorem nxmtRuntimeHeapReserve_page {usable : Word} (page : usable.toNat % 4096 = 0)
    (enough : 4 * 1024 * 1024 ≤ usable.toNat) :
    (nxmtRuntimeHeapReserve usable).toNat % 4096 = 0 ∧
      0 < (nxmtRuntimeHeapReserve usable).toNat ∧
      (nxmtRuntimeHeapReserve usable).toNat < usable.toNat := by
  have m4 : (4 * BitVec.ofNat 64 nxmtMibBytes).toNat = 4 * 1024 * 1024 := by decide
  have m16 : (16 * BitVec.ofNat 64 nxmtMibBytes).toNat = 16 * 1024 * 1024 := by decide
  have m32 : (32 * BitVec.ofNat 64 nxmtMibBytes).toNat = 32 * 1024 * 1024 := by decide
  have m64 : (64 * BitVec.ofNat 64 nxmtMibBytes).toNat = 64 * 1024 * 1024 := by decide
  have m512 : (512 * BitVec.ofNat 64 nxmtMibBytes).toNat = 512 * 1024 * 1024 := by decide
  have half : (usable / 2).toNat = usable.toNat / 2 := BitVec.toNat_udiv
  rw [nxmtRuntimeHeapReserve, if_neg (by rw [BitVec.lt_def, m4]; omega)]
  split
  · rw [alignDownU64_page, half]
    omega
  · rename_i large
    rw [BitVec.lt_def, m64] at large
    split
    · rw [m16]
      omega
    · rename_i larger
      rw [BitVec.lt_def, m512] at larger
      rw [m32]
      omega

theorem nxmtRuntimeHeapReserve_small {usable : Word} (few : usable.toNat < 4 * 1024 * 1024) :
    nxmtRuntimeHeapReserve usable = 0 := by
  have m4 : (4 * BitVec.ofNat 64 nxmtMibBytes).toNat = 4 * 1024 * 1024 := by decide
  rw [nxmtRuntimeHeapReserve, if_pos (by rw [BitVec.lt_def, m4]; exact few)]

/-- Where the cut falls: from the first whole page of the override heap to the end
of its last one, all to the runtime or a first part to the runtime and the rest to
the arena. -/
theorem libnxInitheap_cut {rawStart rawSize : Word} {svcSetHeapSize : Bool × Word}
    {l : HeapLayout} (fits : rawStart.toNat + rawSize.toNat < 2 ^ 64)
    (boot : libnxInitheap (some (rawStart, rawSize)) svcSetHeapSize = some l) :
    let first := (rawStart.toNat + 4095) / 4096 * 4096
    let last := (rawStart.toNat + rawSize.toNat) / 4096 * 4096
    first < last ∧ l.fakeHeapStart.toNat = first ∧ l.fakeHeapEnd.toNat % 4096 = 0 ∧
      ((last < first + 4 * 1024 * 1024 ∧ l.fakeHeapEnd.toNat = last ∧ l.gTestArenaAddr = 0 ∧
          l.gTestArenaSize = 0) ∨
        (first + 4 * 1024 * 1024 ≤ last ∧ first < l.fakeHeapEnd.toNat ∧
          l.fakeHeapEnd.toNat < last ∧ l.gTestArenaAddr = l.fakeHeapEnd ∧
          l.gTestArenaSize.toNat = last - l.fakeHeapEnd.toNat)) := by
  intro first last
  unfold libnxInitheap at boot
  dsimp only at boot
  split at boot
  · rename_i alignedStart up
    obtain ⟨upVal, room⟩ := alignUpUintptr_page up
    have order : rawStart ≤ alignedStart := by
      rw [BitVec.le_def]
      omega
    have lead := BitVec.toNat_sub_of_le order
    split at boot
    · rename_i more
      have moreVal : (alignedStart - rawStart).toNat < rawSize.toNat := more
      have rest := BitVec.toNat_sub_of_le (BitVec.le_of_lt more)
      have usableVal := and_pageMask (rawSize - (alignedStart - rawStart))
      rw [rest, lead] at usableVal
      generalize (rawSize - (alignedStart - rawStart)) &&& _ = usable at boot usableVal
      have whole : first + usable.toNat = last := by
        omega
      have page : usable.toNat % 4096 = 0 := by
        omega
      split at boot
      · rename_i some_page
        have pos : usable.toNat ≠ 0 := fun h => some_page (BitVec.eq_of_toNat_eq h)
        have reserveVal := and_pageMask (nxmtRuntimeHeapReserve usable)
        generalize nxmtRuntimeHeapReserve usable &&& _ = reserve at boot reserveVal
        have sum : ∀ x : Word, x.toNat ≤ usable.toNat →
            (alignedStart + x).toNat = first + x.toNat := by
          intro x hx
          rw [BitVec.toNat_add, upVal]
          omega
        refine ⟨by omega, ?_⟩
        by_cases small : usable.toNat < 4 * 1024 * 1024
        · have none : reserve = 0 := by
            rw [nxmtRuntimeHeapReserve_small small] at reserveVal
            exact BitVec.eq_of_toNat_eq reserveVal
          rw [if_neg (by simp [none])] at boot
          cases boot
          have stop := sum usable (Nat.le_refl _)
          dsimp only
          exact ⟨upVal, by omega, .inl ⟨by omega, stop.trans whole, rfl, rfl⟩⟩
        · obtain ⟨aligned, positive, less⟩ := nxmtRuntimeHeapReserve_page page (by omega)
          have same : reserve.toNat = (nxmtRuntimeHeapReserve usable).toNat := by
            omega
          have cut : reserve ≠ 0 ∧ usable > reserve := by
            constructor
            · rintro rfl
              rw [← same] at positive
              exact absurd positive (by decide)
            · rw [gt_iff_lt, BitVec.lt_def]
              omega
          rw [if_pos cut] at boot
          cases boot
          have middle := sum reserve (by omega)
          have left := BitVec.toNat_sub_of_le (BitVec.le_of_lt cut.2)
          dsimp only
          exact ⟨upVal, by omega, .inr ⟨by omega, by omega, by omega, rfl, by omega⟩⟩
      · cases boot
    · cases boot
  · cases boot

end NxMemTest
