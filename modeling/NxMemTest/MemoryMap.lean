import NxMemTest.Platform
import NxMemTest.GpuPump
import NxMemTest.MainTrace
import Mathlib.Data.Set.Card
import Mathlib.Order.CompletePartialOrder
import Mathlib.Order.Interval.Finset.Nat

/-! Who owns which part of the override heap: the heap of the C runtime, the words
of the workers and, while it may run, the storages of the GPU pump. -/

namespace NxMemTest
open Interaction Program

/-! ### Regions -/

namespace Region

def span (r : Region) : Set Nat := Set.Ico r.base.toNat (r.base.toNat + r.size.toNat)

def PageAligned (r : Region) : Prop := r.base.toNat % 4096 = 0 ∧ r.size.toNat % 4096 = 0

def Ascending (high : Nat) : Nat → List Region → Prop
  | low, [] => low ≤ high
  | low, r :: rs => low ≤ r.base.toNat ∧ Ascending high (r.base.toNat + r.size.toNat) rs

theorem Ascending.within {high low : Nat} {rs : List Region} (h : Ascending high low rs) :
    low ≤ high ∧ ∀ r ∈ rs, low ≤ r.base.toNat ∧ r.base.toNat + r.size.toNat ≤ high := by
  induction rs generalizing low with
  | nil => exact ⟨h, by simp⟩
  | cons r rs ih =>
    obtain ⟨first, rest⟩ := h
    obtain ⟨top, each⟩ := ih rest
    refine ⟨by omega, List.forall_mem_cons.2 ⟨⟨first, top⟩, fun r' hr' => ?_⟩⟩
    have := each r' hr'
    omega

theorem Ascending.subset {high low : Nat} {rs : List Region} (h : Ascending high low rs) :
    ∀ r ∈ rs, r.span ⊆ Set.Ico low high := by
  intro r hr
  obtain ⟨first, last⟩ := h.within.2 r hr
  exact Set.Ico_subset_Ico first last

theorem Ascending.disjoint {high low : Nat} {rs : List Region} (h : Ascending high low rs) :
    rs.Pairwise fun r r' => Disjoint r.span r'.span := by
  induction rs generalizing low with
  | nil => exact List.Pairwise.nil
  | cons r rs ih =>
    refine List.pairwise_cons.2 ⟨fun r' hr' => ?_, ih h.2⟩
    have behind := (h.2.within.2 r' hr').1
    refine Set.disjoint_left.2 fun a ha ha' => ?_
    exact absurd (lt_of_lt_of_le ha.2 (behind.trans ha'.1)) (lt_irrefl a)

end Region

def pageSpan (page : Nat) : Set Nat := Set.Ico (4096 * page) (4096 * (page + 1))

def Region.wholePages (r : Region) : Set Nat := {page | pageSpan page ⊆ r.span}

theorem Region.wholePages_eq (r : Region) :
    r.wholePages = Set.Ico ((r.base.toNat + 4095) / 4096) ((r.base.toNat + r.size.toNat) / 4096) := by
  ext page
  simp only [wholePages, pageSpan, span, Set.mem_ofPred_eq, Set.mem_Ico]
  constructor
  · intro inside
    have low := inside (show 4096 * page ∈ Set.Ico _ _ from ⟨by omega, by omega⟩)
    have high := inside (show 4096 * page + 4095 ∈ Set.Ico _ _ from ⟨by omega, by omega⟩)
    simp only [Set.mem_Ico] at low high
    omega
  · rintro ⟨low, high⟩
    exact Set.Ico_subset_Ico (by omega) (by omega)

theorem Region.ncard_wholePages (r : Region) :
    r.wholePages.ncard =
      (r.base.toNat + r.size.toNat) / 4096 - (r.base.toNat + 4095) / 4096 := by
  rw [r.wholePages_eq, ← Finset.coe_Ico, Set.ncard_coe_finset, Nat.card_Ico]

/-! ### Runtime heap and test arena -/

def HeapLayout.runtimeHeap (l : HeapLayout) : Region :=
  ⟨l.fakeHeapStart, l.fakeHeapEnd - l.fakeHeapStart⟩

def HeapLayout.testArena (l : HeapLayout) : Region := ⟨l.gTestArenaAddr, l.gTestArenaSize⟩

def NxmtArena.wordRegion (a : NxmtArena) : Region := ⟨a.base, a.words * wordBytes⟩

/-- What `__libnx_initheap` makes of the override heap. -/
structure HeapLayout.Partitions (l : HeapLayout) (override : Region) : Prop where
  heap_page : l.runtimeHeap.PageAligned
  arena_page : l.testArena.PageAligned
  disjoint : Disjoint l.runtimeHeap.span l.testArena.span
  adjacent : l.testArena.size ≠ 0 →
    l.testArena.base.toNat = l.runtimeHeap.base.toNat + l.runtimeHeap.size.toNat
  inside : l.runtimeHeap.span ∪ l.testArena.span ⊆ override.span
  covers : ∀ page ∈ override.wholePages, pageSpan page ⊆ l.runtimeHeap.span ∪ l.testArena.span
  empty_iff : l.testArena.size = 0 ↔ 4096 * override.wholePages.ncard < 4 * 1024 * 1024

section
variable {rawStart rawSize : Word} {svcSetHeapSize : Bool × Word} {l : HeapLayout}

theorem libnxInitheap_partitions (fits : rawStart.toNat + rawSize.toNat < 2 ^ 64)
    (boot : libnxInitheap (some (rawStart, rawSize)) svcSetHeapSize = some l) :
    l.Partitions ⟨rawStart, rawSize⟩ := by
  obtain ⟨some_page, start, page, cut⟩ := libnxInitheap_cut fits boot
  have order : l.fakeHeapStart ≤ l.fakeHeapEnd := by
    rw [BitVec.le_def]
    omega
  have size := BitVec.toNat_sub_of_le order
  have heap : l.runtimeHeap.span = Set.Ico l.fakeHeapStart.toNat l.fakeHeapEnd.toNat := by
    simp only [Region.span, HeapLayout.runtimeHeap, size]
    congr 1
    omega
  have heap_page : l.runtimeHeap.PageAligned := by
    simp only [Region.PageAligned, HeapLayout.runtimeHeap, size]
    omega
  have count := Region.ncard_wholePages ⟨rawStart, rawSize⟩
  have pages := Region.wholePages_eq ⟨rawStart, rawSize⟩
  rcases cut with ⟨few, stop, addr, none⟩ | ⟨enough, more, less, addr, rest⟩
  · have arena : l.testArena.span = ∅ := by
      simp only [Region.span, HeapLayout.testArena, none]
      exact Set.Ico_self _
    refine ⟨heap_page, by simp [Region.PageAligned, HeapLayout.testArena, addr, none], ?_, ?_, ?_, ?_, ?_⟩
    · rw [arena]
      exact Set.disjoint_empty _
    · exact fun nonempty => absurd none nonempty
    · rw [arena, Set.union_empty, heap]
      exact Set.Ico_subset_Ico (by dsimp only; omega) (by dsimp only; omega)
    · intro k hk
      rw [pages, Set.mem_Ico] at hk
      rw [arena, Set.union_empty, heap]
      exact Set.Ico_subset_Ico (by dsimp only at hk; omega) (by dsimp only at hk; omega)
    · rw [count]
      exact iff_of_true none (by dsimp only; omega)
  · have arena : l.testArena.span =
        Set.Ico l.fakeHeapEnd.toNat ((rawStart.toNat + rawSize.toNat) / 4096 * 4096) := by
      simp only [Region.span, HeapLayout.testArena, addr, rest]
      congr 1
      omega
    have both : l.runtimeHeap.span ∪ l.testArena.span =
        Set.Ico l.fakeHeapStart.toNat ((rawStart.toNat + rawSize.toNat) / 4096 * 4096) := by
      rw [heap, arena, Set.Ico_union_Ico_eq_Ico (by omega) (by omega)]
    refine ⟨heap_page, ?_, ?_, ?_, ?_, ?_, ?_⟩
    · simp only [Region.PageAligned, HeapLayout.testArena, addr, rest]
      omega
    · rw [heap, arena]
      exact Set.disjoint_left.2 fun a ha ha' => absurd (lt_of_lt_of_le ha.2 ha'.1) (lt_irrefl a)
    · intro _
      simp only [HeapLayout.testArena, HeapLayout.runtimeHeap, addr, size]
      omega
    · rw [both]
      exact Set.Ico_subset_Ico (by dsimp only; omega) (Nat.div_mul_le_self _ _)
    · intro k hk
      rw [pages, Set.mem_Ico] at hk
      rw [both]
      exact Set.Ico_subset_Ico (by dsimp only at hk; omega) (by dsimp only at hk; omega)
    · rw [count]
      refine iff_of_false (fun none => ?_) (by dsimp only; omega)
      have zero : l.gTestArenaSize.toNat = 0 := by
        rw [show l.gTestArenaSize = 0 from none]
        rfl
      omega

theorem nxmtArenaFromRange_page {base size : Word} (base_page : base.toNat % 4096 = 0)
    (size_page : size.toNat % 4096 = 0) (nonempty : size ≠ 0)
    (no_wrap : base.toNat + size.toNat < 2 ^ 64) :
    nxmtArenaFromRange base size = ⟨base, size, size / BitVec.ofNat 64 nxmtWordBytes⟩ := by
  have pos : size.toNat ≠ 0 := fun h => nonempty (BitVec.eq_of_toNat_eq h)
  have all : uint64Max.toNat = 2 ^ 64 - 1 := rfl
  have below : ∀ x : Word, x ≤ uint64Max := by
    intro x
    have := x.isLt
    rw [BitVec.le_def, all]
    omega
  have top : (uint64Max - base).toNat = 2 ^ 64 - 1 - base.toNat := by
    rw [BitVec.toNat_sub_of_le (below base)]
    rfl
  have mask : (BitVec.ofNat 64 nxmtPageBytes - 1 : Word).toNat = 4095 := by decide
  have room : ¬ base > uint64Max - (BitVec.ofNat 64 nxmtPageBytes - 1) := by
    rw [gt_iff_lt, BitVec.lt_def, BitVec.toNat_sub_of_le (below _), mask]
    omega
  have up : alignUpU64 base (BitVec.ofNat 64 nxmtPageBytes) = some base := by
    cases value : alignUpU64 base (BitVec.ofNat 64 nxmtPageBytes) with
    | none =>
      rw [alignUpU64, if_neg room] at value
      cases value
    | some up =>
      have rounded := (alignUpU64_page value).1
      exact congrArg Option.some (BitVec.eq_of_toNat_eq (by omega))
  have last : alignDownU64 (base + size) (BitVec.ofNat 64 nxmtPageBytes) = base + size := by
    apply BitVec.eq_of_toNat_eq
    rw [alignDownU64_page, BitVec.toNat_add]
    omega
  have fits : ¬ size > uint64Max - base := by
    rw [gt_iff_lt, BitVec.lt_def, top]
    omega
  have order : ¬ base + size ≤ base := by
    rw [BitVec.le_def, BitVec.toNat_add]
    omega
  have back : base + size - base = size := by
    rw [BitVec.add_comm, BitVec.add_sub_cancel]
  simp only [nxmtArenaFromRange, up, if_neg fits, last, if_neg order, back]

theorem nxmtPlatformGetMemory_arena (fits : rawStart.toNat + rawSize.toNat < 2 ^ 64)
    (boot : libnxInitheap (some (rawStart, rawSize)) svcSetHeapSize = some l)
    (nonempty : l.testArena.size ≠ 0) :
    let memory := nxmtPlatformGetMemory (some (rawStart, rawSize)) l
    memory.hasHeapOverride = true ∧
      nxmtArenaFromRange memory.overrideHeapAddr memory.overrideHeapSize =
        ⟨l.gTestArenaAddr, l.gTestArenaSize,
          l.gTestArenaSize / BitVec.ofNat 64 nxmtWordBytes⟩ := by
  have parts := libnxInitheap_partitions fits boot
  obtain ⟨some_page, start, page, cut⟩ := libnxInitheap_cut fits boot
  rcases cut with ⟨-, -, -, none⟩ | ⟨enough, more, less, addr, rest⟩
  · exact absurd none nonempty
  · have nonnull : l.gTestArenaAddr ≠ 0#64 := by
      intro null
      have zero : l.fakeHeapEnd.toNat = 0 := by
        rw [← addr, null]
        rfl
      omega
    have size : l.gTestArenaSize ≠ 0#64 := nonempty
    have usable : nxmtPlatformGetMemory (some (rawStart, rawSize)) l =
        { nxmtPlatformGetMemory (some (rawStart, rawSize)) l with
          overrideHeapAddr := l.gTestArenaAddr, overrideHeapSize := l.gTestArenaSize,
          hasHeapOverride := true } := by
      simp [nxmtPlatformGetMemory, nonnull, size]
    rw [usable]
    refine ⟨rfl, nxmtArenaFromRange_page parts.arena_page.1 parts.arena_page.2 nonempty ?_⟩
    have last := Nat.div_mul_le_self (rawStart.toNat + rawSize.toNat) 4096
    simp only [addr, rest]
    omega

end

/-! ### The GPU pump -/

/-- `64ull * NXMT_MIB_BYTES` -/
def gpuPumpBufferSize : Word := 64 * BitVec.ofNat 64 nxmtMibBytes

/-- `cpu_arena` while the pump has the tail of the arena. -/
def carvedArena (arena : NxmtArena) : NxmtArena :=
  let size := arena.size - 256 * BitVec.ofNat 64 nxmtMibBytes
  { arena with size := size, words := size / BitVec.ofNat 64 nxmtWordBytes }

theorem path_gpuCarveOut_share {mode : NxmtMode} {arena : NxmtArena} {workers : BitVec 32}
    {t : List (Event MainCall.Answer)} {share : NxmtArena × BitVec 32}
    (h : Path (gpuCarveOut mode arena workers) t share) :
    (t = [] ∧ share.1 = arena) ∨
      (1024 * BitVec.ofNat 64 nxmtMibBytes ≤ arena.size ∧ ∃ active,
        t = [⟨.gpuPumpStart (arena.base + (carvedArena arena).size)
          (256 * BitVec.ofNat 64 nxmtMibBytes), active⟩] ∧
        share.1 = if active then carvedArena arena else arena) := by
  unfold gpuCarveOut at h
  split at h
  · rename_i large
    obtain ⟨active, u, rfl, hu⟩ := path_call_bind.1 h
    obtain ⟨rfl, rfl⟩ := path_pure.1 hu
    refine .inr ⟨large.2.1, active, rfl, ?_⟩
    cases active <;> rfl
  · obtain ⟨rfl, rfl⟩ := path_pure.1 h
    exact .inl ⟨rfl, rfl⟩

def PumpCall.Fits (storageBase storageSize bufferSize : Word) : PumpCall → Prop
  | .threadStart base bytes => base = storageBase ∧ bytes = pumpBufferAligned bufferSize ∧
    pumpPreambleBytes + 2 * pumpBufferAligned bufferSize ≤ storageSize
  | _ => True

theorem nxmtGpuPumpStart_fits (storageBase storageSize bufferSize : Word)
    (stopRequested : Bool) :
    (nxmtGpuPumpStart storageBase storageSize bufferSize stopRequested).Uses
      (PumpCall.Fits storageBase storageSize bufferSize) := by
  unfold nxmtGpuPumpStart
  split
  · exact uses_pure _
  dsimp only
  split
  · exact uses_pure _
  rename_i room
  refine uses_bind (uses_call.2 trivial) fun created => ?_
  split
  · exact uses_pure _
  refine uses_bind (uses_call.2 ⟨rfl, rfl, BitVec.not_lt.1 room⟩) fun started => ?_
  split
  · exact uses_bind (uses_call.2 trivial) fun _ => uses_pure _
  refine uses_bind (pollInitDone_uses trivial 50) fun _ => ?_
  refine uses_bind (uses_call.2 trivial) fun failed => ?_
  split
  · exact uses_bind (uses_call.2 trivial) fun _ => uses_bind (uses_call.2 trivial) fun _ =>
      uses_pure _
  · exact uses_pure _

def threadStarts : Event PumpCall.Answer → Bool
  | ⟨.threadStart .., started⟩ => started
  | _ => false

theorem nxmtGpuPumpStart_false {storageBase storageSize bufferSize : Word} {stopRequested : Bool}
    {t : List (Event PumpCall.Answer)}
    (h : Path (nxmtGpuPumpStart storageBase storageSize bufferSize stopRequested) t false)
    (base bytes : Word) : ¬ PumpMayRun base bytes t := by
  rintro ⟨start, running⟩
  have some_start : ∃ e ∈ t, threadStarts e = true := ⟨_, start, rfl⟩
  unfold nxmtGpuPumpStart at h
  split at h
  · obtain ⟨rfl, -⟩ := path_pure.1 h
    simp at some_start
  dsimp only at h
  split at h
  · obtain ⟨rfl, -⟩ := path_pure.1 h
    simp at some_start
  obtain ⟨created, u, rfl, hu⟩ := path_call_bind.1 h
  split at hu
  · obtain ⟨rfl, -⟩ := path_pure.1 hu
    simp [threadStarts] at some_start
  obtain ⟨started, v, rfl, hv⟩ := path_call_bind.1 hu
  split at hv
  · rename_i refused
    obtain ⟨_, w, rfl, hw⟩ := path_call_bind.1 hv
    obtain ⟨rfl, -⟩ := path_pure.1 hw
    simp [threadStarts] at some_start
    simp [some_start] at refused
  obtain ⟨_, a, w, rfl, ha, hw⟩ := path_bind.1 hv
  obtain ⟨failed, x, rfl, hx⟩ := path_call_bind.1 hw
  split at hx
  · obtain ⟨exited, y, rfl, -⟩ := path_call_bind.1 hx
    refine running ⟨.threadWaitForExit, exited⟩ ?_ rfl
    simp only [List.mem_cons, List.mem_append, true_or, or_true]
  · exact absurd (path_pure.1 hx).2 (by decide)

theorem toNat_add_of_lt {a b : Word} (fits : a.toNat + b.toNat < 2 ^ 64) :
    (a + b).toNat = a.toNat + b.toNat := by rw [BitVec.toNat_add, Nat.mod_eq_of_lt fits]

theorem pumpRegions_ascending {s bufferAligned : Word} {high : Nat}
    (pos : 0 < bufferAligned.toNat) (fits : s.toNat + 86016 + 2 * bufferAligned.toNat ≤ high)
    (top : s.toNat + 86016 + 2 * bufferAligned.toNat ≤ 2 ^ 64) :
    Region.Ascending high s.toNat (pumpRegions s bufferAligned) := by
  have cmd : pumpCmdBytes.toNat = 65536 := by decide
  have shader : pumpShaderBytes.toNat = 16384 := by decide
  have result : pumpResultBytes.toNat = 4096 := by decide
  have preamble : pumpPreambleBytes.toNat = 86016 := by decide
  have s1 : (s + pumpCmdBytes).toNat = s.toNat + pumpCmdBytes.toNat :=
    toNat_add_of_lt (by omega)
  have s2 : (s + pumpCmdBytes + pumpShaderBytes).toNat =
      (s + pumpCmdBytes).toNat + pumpShaderBytes.toNat := toNat_add_of_lt (by omega)
  have s3 : (s + pumpPreambleBytes).toNat = s.toNat + pumpPreambleBytes.toNat :=
    toNat_add_of_lt (by omega)
  have s4 : (s + pumpPreambleBytes + bufferAligned).toNat =
      (s + pumpPreambleBytes).toNat + bufferAligned.toNat := toNat_add_of_lt (by omega)
  simp only [Region.Ascending, pumpRegions]
  omega

theorem carvedArena_ascending {l : HeapLayout} {arena : NxmtArena} {high low : Nat}
    (wf : arena.WellFormed) (large : 1024 * BitVec.ofNat 64 nxmtMibBytes ≤ arena.size)
    (heap : low ≤ l.runtimeHeap.base.toNat ∧
      l.runtimeHeap.base.toNat + l.runtimeHeap.size.toNat ≤ arena.base.toNat)
    (top : arena.base.toNat + arena.size.toNat ≤ high) :
    Region.Ascending high low (l.runtimeHeap :: (carvedArena arena).wordRegion ::
      pumpThreadRegions (arena.base + (carvedArena arena).size)
        (pumpBufferAligned gpuPumpBufferSize)) := by
  have gib : (1024 * BitVec.ofNat 64 nxmtMibBytes).toNat = 2 ^ 30 := by decide
  have region : (256 * BitVec.ofNat 64 nxmtMibBytes).toNat = 2 ^ 28 := by decide
  obtain ⟨wf', -⟩ := carveOut_wellFormed wf large rfl
  have no_wrap := wf.no_wrap
  rw [BitVec.le_def, gib] at large
  have size : (carvedArena arena).size.toNat = arena.size.toNat - 2 ^ 28 := by
    rw [carvedArena, BitVec.toNat_sub_of_le (by rw [BitVec.le_def]; omega), region]
  have words : (carvedArena arena).wordRegion.size.toNat = (carvedArena arena).size.toNat := by
    have eight : wordBytes.toNat = 8 := rfl
    have product : (carvedArena arena).words.toNat * 8 = (carvedArena arena).size.toNat :=
      wf'.words_size
    rw [NxmtArena.wordRegion, BitVec.toNat_mul, eight]
    omega
  have storage : (arena.base + (carvedArena arena).size).toNat =
      arena.base.toNat + arena.size.toNat - 2 ^ 28 := by
    rw [BitVec.toNat_add, size]
    omega
  have buffer : pumpBufferAligned (pumpBufferAligned gpuPumpBufferSize) = 64 * 1024 * 1024 := by
    decide
  have bytes : (64 * 1024 * 1024 : Word).toNat = 67108864 := by decide
  have base : (carvedArena arena).wordRegion.base.toNat = arena.base.toNat := rfl
  have storages : Region.Ascending high (arena.base + (carvedArena arena).size).toNat
      (pumpRegions (arena.base + (carvedArena arena).size) (64 * 1024 * 1024)) :=
    pumpRegions_ascending (by omega) (by omega) (by omega)
  have start : (carvedArena arena).wordRegion.base.toNat + (carvedArena arena).wordRegion.size.toNat =
      (arena.base + (carvedArena arena).size).toNat := by omega
  rw [pumpThreadRegions, buffer]
  refine ⟨heap.1, heap.2, ?_⟩
  rw [start]
  exact storages

/-! ### The whole map -/

structure Owned (override : Region) (owners : List Region) : Prop where
  disjoint : owners.Pairwise fun r r' => Disjoint r.span r'.span
  inside : ∀ r ∈ owners, r.span ⊆ override.span

theorem Owned.sublist {override : Region} {owners owners' : List Region}
    (h : Owned override owners) (sub : owners'.Sublist owners) : Owned override owners' :=
  ⟨h.disjoint.sublist sub, fun r hr => h.inside r (sub.subset hr)⟩

/-- Whatever the mode, the workers and the start of the pump: after it, runtime
heap, words of the workers and storages of a pump thread that may run are apart;
so they are at every moment of the start, when `cpu_arena` is still the carved one;
and a start that returns false leaves no thread and the whole arena. -/
def PumpApart (override : Region) (l : HeapLayout) (arena : NxmtArena) : Prop :=
  ∀ mode workers t cpuArena cpuWorkers,
    Path (gpuCarveOut mode arena workers) t (cpuArena, cpuWorkers) →
    Owned override [l.runtimeHeap, cpuArena.wordRegion] ∧
    ∀ storage region active, ⟨.gpuPumpStart storage region, active⟩ ∈ t →
      ∀ u, Path (nxmtGpuPumpStart storage region gpuPumpBufferSize true) u active →
        (∀ base bytes, PumpMayRun base bytes u →
          Owned override (l.runtimeHeap :: cpuArena.wordRegion :: pumpThreadRegions base bytes)) ∧
        (∀ u' base bytes, u' <+: u → PumpMayRun base bytes u' →
          Owned override
            (l.runtimeHeap :: (carvedArena arena).wordRegion :: pumpThreadRegions base bytes)) ∧
        (active = false → cpuArena = arena ∧ ∀ base bytes, ¬ PumpMayRun base bytes u)

theorem Region.Ascending.owned {override : Region} {owners : List Region}
    (h : Ascending (override.base.toNat + override.size.toNat) override.base.toNat owners) :
    Owned override owners := ⟨h.disjoint, h.subset⟩

theorem pumpApart {override : Region} {l : HeapLayout} {arena : NxmtArena}
    (wf : arena.WellFormed)
    (heap : override.base.toNat ≤ l.runtimeHeap.base.toNat ∧
      l.runtimeHeap.base.toNat + l.runtimeHeap.size.toNat ≤ arena.base.toNat)
    (top : arena.base.toNat + arena.size.toNat ≤ override.base.toNat + override.size.toNat) :
    PumpApart override l arena := by
  intro mode workers t cpuArena cpuWorkers ht
  have whole : Owned override [l.runtimeHeap, arena.wordRegion] := by
    have eight : wordBytes.toNat = 8 := rfl
    have product := wf.words_size
    have bound := arena.size.isLt
    have words : arena.wordRegion.size.toNat = arena.size.toNat := by
      rw [NxmtArena.wordRegion, BitVec.toNat_mul, eight]
      omega
    refine Region.Ascending.owned ⟨heap.1, heap.2, ?_⟩
    rw [Region.Ascending, words]
    exact top
  rcases path_gpuCarveOut_share ht with ⟨rfl, same⟩ | ⟨large, active, rfl, share⟩
  · cases same
    exact ⟨whole, fun _ _ _ none => absurd none List.not_mem_nil⟩
  · have ascending := carvedArena_ascending wf large heap top
    have carved := ascending.owned
    have storages : ∀ u' base bytes, PumpMayRun base bytes u' →
        (∀ e ∈ u', e.1.Fits (arena.base + (carvedArena arena).size)
          (256 * BitVec.ofNat 64 nxmtMibBytes) gpuPumpBufferSize) →
        Owned override
          (l.runtimeHeap :: (carvedArena arena).wordRegion :: pumpThreadRegions base bytes) := by
      intro u' base bytes runs fits
      obtain ⟨rfl, rfl, -⟩ := fits _ runs.1
      exact carved
    refine ⟨?_, fun storage region answer call u hu => ?_⟩
    · cases active with
      | false =>
        cases share
        exact whole
      | true =>
        have cpu : cpuArena = carvedArena arena := share
        rw [cpu]
        exact carved.sublist (.cons_cons _ (.cons_cons _ (List.nil_sublist _)))
    · cases List.mem_singleton.1 call
      have fits := hu.asked (nxmtGpuPumpStart_fits _ _ _ _)
      refine ⟨fun base bytes runs => ?_, fun u' base bytes sub runs => ?_, fun refused => ?_⟩
      · cases active with
        | false => exact absurd runs (nxmtGpuPumpStart_false hu base bytes)
        | true =>
          have cpu : cpuArena = carvedArena arena := share
          rw [cpu]
          exact storages u base bytes runs fits
      · exact storages u' base bytes runs fun e he => fits e (sub.subset he)
      · subst refused
        exact ⟨share, nxmtGpuPumpStart_false hu⟩

/-- Wherever the override heap lies, its whole pages are shared out between runtime
heap and test arena, the arena of main is that test arena, and nobody, the GPU pump
included, reaches into what is another's. -/
theorem memoryMap_safe {rawStart rawSize : Word} {svcSetHeapSize : Bool × Word} {l : HeapLayout}
    (fits : rawStart.toNat + rawSize.toNat < 2 ^ 64)
    (boot : libnxInitheap (some (rawStart, rawSize)) svcSetHeapSize = some l) :
    let memory := nxmtPlatformGetMemory (some (rawStart, rawSize)) l
    let arena := nxmtArenaFromRange memory.overrideHeapAddr memory.overrideHeapSize
    l.Partitions ⟨rawStart, rawSize⟩ ∧
      (l.testArena.size ≠ 0 → memory.hasHeapOverride = true ∧
        arena = ⟨l.testArena.base, l.testArena.size,
          l.testArena.size / BitVec.ofNat 64 nxmtWordBytes⟩ ∧
        PumpApart ⟨rawStart, rawSize⟩ l arena) := by
  have parts := libnxInitheap_partitions fits boot
  refine ⟨parts, fun nonempty => ?_⟩
  obtain ⟨usable, whole⟩ := nxmtPlatformGetMemory_arena fits boot nonempty
  refine ⟨usable, whole, ?_⟩
  obtain ⟨some_page, start, page, cut⟩ := libnxInitheap_cut fits boot
  rcases cut with ⟨-, -, -, none⟩ | ⟨enough, more, less, addr, rest⟩
  · exact absurd none nonempty
  have order : l.fakeHeapStart ≤ l.fakeHeapEnd := by
    rw [BitVec.le_def]
    omega
  have heap_size := BitVec.toNat_sub_of_le order
  have last := Nat.div_mul_le_self (rawStart.toNat + rawSize.toNat) 4096
  have eight : (BitVec.ofNat 64 nxmtWordBytes).toNat = 8 := rfl
  have wf : (nxmtArenaFromRange
      (nxmtPlatformGetMemory (some (rawStart, rawSize)) l).overrideHeapAddr
      (nxmtPlatformGetMemory (some (rawStart, rawSize)) l).overrideHeapSize).WellFormed := by
    refine nxmtArenaFromRange_wellFormed fun zero => ?_
    have words : (l.gTestArenaSize / BitVec.ofNat 64 nxmtWordBytes).toNat = 0 := by
      rw [whole] at zero
      exact congrArg BitVec.toNat zero
    rw [BitVec.toNat_udiv, eight, rest] at words
    omega
  refine pumpApart wf ⟨?_, ?_⟩ ?_
  · simp only [HeapLayout.runtimeHeap]
    omega
  · simp only [whole, HeapLayout.runtimeHeap, heap_size, addr]
    omega
  · simp only [whole, addr, rest]
    omega

/-- Three gigabytes from an address inside a page. -/
theorem memoryMap_safe_large :
    let l : HeapLayout := ⟨0x8001000, 0xa001000, 0xa001000, 0xbdfff000⟩
    libnxInitheap (some (0x8000100, 0xc0000000)) (false, 0) = some l ∧
      l.Partitions ⟨0x8000100, 0xc0000000⟩ ∧
      PumpApart ⟨0x8000100, 0xc0000000⟩ l ⟨0xa001000, 0xbdfff000, 0x17bffe00⟩ := by
  have boot : libnxInitheap (some (0x8000100, 0xc0000000)) (false, 0) =
      some ⟨0x8001000, 0xa001000, 0xa001000, 0xbdfff000⟩ := by decide
  obtain ⟨parts, arena⟩ := memoryMap_safe (by decide) boot
  obtain ⟨-, whole, apart⟩ := arena (by decide)
  rw [whole] at apart
  exact ⟨boot, parts, apart⟩

end NxMemTest
