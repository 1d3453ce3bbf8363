import NxMemTest.GpuPumpThread

/-! What there is of the pump at each point of its life, newest first, is what its handles
say. Hence `pump_teardown` may release one after the other, however far the setup came. -/

namespace NxMemTest
open Interaction Protocol

/-! ### The storages -/

theorem Region.memBlock_base {r block : Region} (made : r.memBlock = block) :
    block.base = r.base := by
  rw [← made]
  rfl

theorem toNat_cut {x : Word} (small : x.toNat < 2 ^ 32) : (x.setWidth 32).toNat = x.toNat := by
  rw [BitVec.toNat_setWidth, Nat.mod_eq_of_lt small]

theorem Region.memBlock_eq {r : Region} (small : r.size.toNat < 2 ^ 32) : r.memBlock = r := by
  have size : (r.size.setWidth 32).setWidth 64 = r.size := by
    apply BitVec.eq_of_toNat_eq
    rw [BitVec.toNat_setWidth_of_le (by decide), toNat_cut small]
  rw [Region.memBlock, size]

structure Region.Mappable (r : Region) : Prop where
  base_page : r.base.toNat % 4096 = 0
  size_page : r.size.toNat % 4096 = 0
  nonempty : 0 < r.size.toNat
  top : r.base.toNat + r.size.toNat ≤ 2 ^ 64

/-- The storages of the pump, one after the other, for a buffer of whole pages. -/
structure PumpStorage (base bytes : Word) : Prop where
  aligned : base.toNat % 4096 = 0
  pages : bytes.toNat % 4096 = 0
  some_bytes : 0 < bytes.toNat
  small : bytes.toNat < 2 ^ 32
  top : base.toNat + 86016 + 2 * bytes.toNat ≤ 2 ^ 64

theorem PumpStorage.bases {base bytes : Word} (h : PumpStorage base bytes) :
    (pumpShaderStorage base).base.toNat = base.toNat + 65536 ∧
      (pumpResultStorage base).base.toNat = base.toNat + 81920 ∧
      (pumpSrcStorage base bytes).base.toNat = base.toNat + 86016 ∧
      (pumpDstStorage base bytes).base.toNat = base.toNat + 86016 + bytes.toNat := by
  have top := h.top
  have pos := h.some_bytes
  have cmd : pumpCmdBytes.toNat = 65536 := by decide
  have shader : pumpShaderBytes.toNat = 16384 := by decide
  have preamble : pumpPreambleBytes.toNat = 86016 := by decide
  have s1 : (base + pumpCmdBytes).toNat = base.toNat + pumpCmdBytes.toNat :=
    toNat_add_of_lt (by omega)
  have s2 : (base + pumpCmdBytes + pumpShaderBytes).toNat =
      (base + pumpCmdBytes).toNat + pumpShaderBytes.toNat := toNat_add_of_lt (by omega)
  have s3 : (base + pumpPreambleBytes).toNat = base.toNat + pumpPreambleBytes.toNat :=
    toNat_add_of_lt (by omega)
  have s4 : (base + pumpPreambleBytes + bytes).toNat =
      (base + pumpPreambleBytes).toNat + bytes.toNat := toNat_add_of_lt (by omega)
  simp only [pumpShaderStorage, pumpResultStorage, pumpSrcStorage, pumpDstStorage]
  omega

structure PumpBlocks where
  cmd : Region
  shader : Region
  result : Region
  src : Region
  dst : Region
  /-- The CPU caches source and destination. -/
  cached : Bool

structure PumpBlocks.Fit (k : PumpBlocks) (base bytes : Word) : Prop where
  cmd : (pumpCmdStorage base).memBlock = k.cmd
  shader : (pumpShaderStorage base).memBlock = k.shader
  result : (pumpResultStorage base).memBlock = k.result
  src : (pumpSrcStorage base bytes).memBlock = k.src
  dst : (pumpDstStorage base bytes).memBlock = k.dst
  cached : k.cached = false
  cmd_mappable : k.cmd.Mappable
  shader_mappable : k.shader.Mappable
  result_mappable : k.result.Mappable
  src_mappable : k.src.Mappable
  dst_mappable : k.dst.Mappable
  cmd_size : k.cmd.size.toNat = 65536
  shader_size : k.shader.size.toNat = 16384
  result_size : k.result.size.toNat = 4096
  src_size : k.src.size.toNat = bytes.toNat
  dst_size : k.dst.size.toNat = bytes.toNat
  shader_base : k.shader.base.toNat = k.cmd.base.toNat + 65536
  result_base : k.result.base.toNat = k.cmd.base.toNat + 81920
  src_base : k.src.base.toNat = k.cmd.base.toNat + 86016
  dst_base : k.dst.base.toNat = k.cmd.base.toNat + 86016 + bytes.toNat
  small : bytes.toNat < 2 ^ 32
  pages : bytes.toNat % 4096 = 0

theorem PumpStorage.exists_fit {base bytes : Word} (h : PumpStorage base bytes) :
    ∃ k : PumpBlocks, k.Fit base bytes := by
  obtain ⟨shader, result, src, dst⟩ := h.bases
  have aligned := h.aligned
  have pages := h.pages
  have some_bytes := h.some_bytes
  have small := h.small
  have top := h.top
  have cmd_base : (pumpCmdStorage base).base.toNat = base.toNat := rfl
  have cmd_size : (pumpCmdStorage base).size.toNat = 65536 := (by decide : pumpCmdBytes.toNat = _)
  have shader_size : (pumpShaderStorage base).size.toNat = 16384 :=
    (by decide : pumpShaderBytes.toNat = _)
  have result_size : (pumpResultStorage base).size.toNat = 4096 :=
    (by decide : pumpResultBytes.toNat = _)
  have src_size : (pumpSrcStorage base bytes).size.toNat = bytes.toNat := rfl
  have dst_size : (pumpDstStorage base bytes).size.toNat = bytes.toNat := rfl
  have cmd_mappable : (pumpCmdStorage base).Mappable :=
    ⟨aligned, by omega, by omega, by omega⟩
  have shader_mappable : (pumpShaderStorage base).Mappable :=
    ⟨by omega, by omega, by omega, by omega⟩
  have result_mappable : (pumpResultStorage base).Mappable :=
    ⟨by omega, by omega, by omega, by omega⟩
  have src_mappable : (pumpSrcStorage base bytes).Mappable :=
    ⟨by omega, by omega, by omega, by omega⟩
  have dst_mappable : (pumpDstStorage base bytes).Mappable :=
    ⟨by omega, by omega, by omega, by omega⟩
  exact ⟨⟨pumpCmdStorage base, pumpShaderStorage base, pumpResultStorage base,
    pumpSrcStorage base bytes, pumpDstStorage base bytes, false⟩, Region.memBlock_eq (by omega),
    Region.memBlock_eq (by omega), Region.memBlock_eq (by omega), Region.memBlock_eq small,
    Region.memBlock_eq small, rfl, cmd_mappable, shader_mappable, result_mappable, src_mappable,
    dst_mappable, cmd_size, shader_size, result_size, src_size, dst_size, shader, result, src, dst,
    small, pages⟩

/-! ### What the handles say -/

def slot (h : DkHandle) (o : DkObject) : List (DkHandle × DkObject) :=
  if h = 0 then [] else [(h, o)]

@[simp] theorem slot_null (o : DkObject) : slot 0 o = [] := rfl

theorem slot_of_ne {h : DkHandle} (ne : h ≠ 0) (o : DkObject) : slot h o = [(h, o)] := if_neg ne

@[simp] theorem mem_slot {h h' : DkHandle} {o o' : DkObject} :
    (h', o') ∈ slot h o ↔ h ≠ 0 ∧ h' = h ∧ o' = o := by
  rw [slot]
  split <;> simp_all

theorem forall_mem_slot {h : DkHandle} {o : DkObject} {P : DkHandle × DkObject → Prop} :
    (∀ r ∈ slot h o, P r) ↔ (h ≠ 0 → P (h, o)) := by
  by_cases null : h = 0
  · simp [null]
  · simp [slot_of_ne null, null]

/-- The objects of the pump, newest first. -/
def PumpGlobals.objects (k : PumpBlocks) (g : PumpGlobals) : List (DkHandle × DkObject) :=
  slot g.queue (.queue g.device) ++ (slot g.dst (.memBlock g.device k.dst false k.cached) ++
    (slot g.src (.memBlock g.device k.src false k.cached) ++ (slot g.cmdbuf (.cmdBuf g.device) ++
    (slot g.resultMem (.memBlock g.device k.result false false) ++
    (slot g.shaderMem (.memBlock g.device k.shader true false) ++
    (slot g.cmdMem (.memBlock g.device k.cmd false false) ++ slot g.device .device))))))

section
variable {k : PumpBlocks} {g : PumpGlobals}

theorem PumpGlobals.mem_device (ne : g.device ≠ 0) : (g.device, .device) ∈ g.objects k := by
  simp [objects, ne]

theorem PumpGlobals.mem_cmdMem (ne : g.cmdMem ≠ 0) :
    (g.cmdMem, .memBlock g.device k.cmd false false) ∈ g.objects k := by
  simp [objects, ne]

theorem PumpGlobals.mem_shaderMem (ne : g.shaderMem ≠ 0) :
    (g.shaderMem, .memBlock g.device k.shader true false) ∈ g.objects k := by
  simp [objects, ne]

theorem PumpGlobals.mem_resultMem (ne : g.resultMem ≠ 0) :
    (g.resultMem, .memBlock g.device k.result false false) ∈ g.objects k := by
  simp [objects, ne]

theorem PumpGlobals.mem_cmdbuf (ne : g.cmdbuf ≠ 0) :
    (g.cmdbuf, .cmdBuf g.device) ∈ g.objects k := by
  simp [objects, ne]

theorem PumpGlobals.mem_src (ne : g.src ≠ 0) :
    (g.src, .memBlock g.device k.src false k.cached) ∈ g.objects k := by
  simp [objects, ne]

theorem PumpGlobals.mem_dst (ne : g.dst ≠ 0) :
    (g.dst, .memBlock g.device k.dst false k.cached) ∈ g.objects k := by
  simp [objects, ne]

theorem PumpGlobals.mem_queue (ne : g.queue ≠ 0) : (g.queue, .queue g.device) ∈ g.objects k := by
  simp [objects, ne]

end

def PumpGlobals.blob (size : Nat) (g : PumpGlobals) : List (Nat × Nat) :=
  if g.shaderCtrl = 0 then [] else [(g.shaderCtrl, size)]

structure PumpGlobals.Null (g : PumpGlobals) : Prop where
  device : g.device = 0
  cmdMem : g.cmdMem = 0
  shaderMem : g.shaderMem = 0
  resultMem : g.resultMem = 0
  cmdbuf : g.cmdbuf = 0
  src : g.src = 0
  dst : g.dst = 0
  queue : g.queue = 0
  shaderCtrl : g.shaderCtrl = 0

namespace Ledger
variable {l : Ledger}

theorem Has.of_mem {h : DkHandle} {o : DkObject} {test : DkObject → Bool} (mem : (h, o) ∈ l.live)
    (passes : test o) : l.Has h test := ⟨(h, o), mem, rfl, passes⟩

theorem Has.of_block {h device : DkHandle} {storage : Region} {code cpuCached : Bool} {n : Nat}
    (mem : (h, .memBlock device storage code cpuCached) ∈ l.live)
    (fits : n ≤ storage.size.toNat) : l.Has h (DkObject.holds n) :=
  .of_mem mem (decide_eq_true fits)

theorem admits_destroy {h : DkHandle} {o : DkObject} {rest : List (DkHandle × DkObject)}
    (idle : l.busy = false) (live : l.live = (h, o) :: rest) :
    dkProtocol.Admits l (Program.call (DkCall.destroy o.kind h))
      fun _ l' => l' = { l with live := rest } := by
  refine .of_call (decide_eq_true ⟨idle, (h, o), ?_, rfl, rfl⟩) fun _ => ?_
  · rw [live]
    rfl
  · have left : l.live.tail = rest := by rw [live, List.tail_cons]
    change { l with live := l.live.tail } = _
    rw [left]

theorem admits_destroyUnlessNull {kind : DkObject.Kind} {h : DkHandle} {o : DkObject}
    {rest : List (DkHandle × DkObject)} (idle : l.busy = false) (same : o.kind = kind)
    (live : l.live = slot h o ++ rest) :
    dkProtocol.Admits l (destroyUnlessNull kind h) fun _ l' => l' = { l with live := rest } := by
  subst same
  refine .ite (fun ne => ?_) fun null => .of_pure ?_
  · rw [slot_of_ne ne] at live
    exact admits_destroy idle live
  · rw [not_not.1 null, slot_null, List.nil_append] at live
    rw [← live]

end Ledger

/-- The buffers and the result block are as large as the lists need them. -/
theorem PumpBlocks.Fit.holds {k : PumpBlocks} {base bytes : Word} (fit : k.Fit base bytes)
    {g : PumpGlobals} {l : Ledger} (live : l.live = g.objects k) (src : g.src ≠ 0)
    (dst : g.dst ≠ 0) (resultMem : g.resultMem ≠ 0) :
    l.Has g.src (DkObject.holds (bytes.setWidth 32).toNat) ∧
      l.Has g.dst (DkObject.holds (bytes.setWidth 32).toNat) ∧
      l.Has g.resultMem (DkObject.holds (pumpResultBytes.setWidth 32).toNat) := by
  have width := toNat_cut fit.small
  have result : (pumpResultBytes.setWidth 32).toNat = 4096 := by decide
  have src_mem := PumpGlobals.mem_src (k := k) src
  have dst_mem := PumpGlobals.mem_dst (k := k) dst
  have result_mem := PumpGlobals.mem_resultMem (k := k) resultMem
  rw [← live] at src_mem dst_mem result_mem
  exact ⟨.of_block src_mem (width.trans fit.src_size.symm).le,
    .of_block dst_mem (width.trans fit.dst_size.symm).le,
    .of_block result_mem (result.trans fit.result_size.symm).le⟩

def PumpGlobals.cleared (g : PumpGlobals) : PumpGlobals :=
  { g with
    queue := 0, dst := 0, src := 0, cmdbuf := 0, resultMem := 0, shaderMem := 0, cmdMem := 0,
    device := 0, shaderCtrl := 0 }

theorem PumpGlobals.cleared_null (g : PumpGlobals) : g.cleared.Null :=
  ⟨rfl, rfl, rfl, rfl, rfl, rfl, rfl, rfl, rfl⟩

open Ledger in
/-- `pump_teardown` releases whatever there is, in an order in which nothing is needed any
more when it goes. -/
theorem admits_pumpTeardown {k : PumpBlocks} {size : Nat} {g : PumpGlobals} {l : Ledger}
    (live : l.live = g.objects k) (heap : l.heap = g.blob size) (idle : l.busy = false) :
    dkProtocol.Admits l (pumpTeardown g)
      fun g' l' => g' = g.cleared ∧ l' = { l with live := [], heap := [] } := by
  have queue : dkProtocol.Admits l
      (if g.queue ≠ 0 then do
        Program.call (DkCall.waitIdle g.queue)
        Program.call (DkCall.destroy .queue g.queue)
      else pure ()) fun _ l' => l' = { l with live := (g.objects k).drop (slot g.queue
        (.queue g.device)).length } := by
    refine .ite (fun ne => ?_) fun null => .of_pure ?_
    · have objects := live
      rw [PumpGlobals.objects, slot_of_ne ne] at objects
      refine .call_bind (decide_eq_true ⟨_, by rw [objects]; exact List.mem_cons_self, rfl, rfl⟩)
        fun _ => ?_
      have waited : dkProtocol.after (.waitIdle g.queue) () l = l := by
        change { l with busy := false } = l
        rw [← idle]
      rw [waited]
      refine (admits_destroy idle objects).post ?_
      rintro _ _ rfl
      rw [slot_of_ne ne, PumpGlobals.objects, slot_of_ne ne]
      rfl
    · rw [not_not.1 null, slot_null, List.length_nil, List.drop_zero, ← live]
  rw [PumpGlobals.objects, List.drop_left] at queue
  refine queue.bind ?_
  rintro _ _ rfl
  refine .bind (admits_destroyUnlessNull idle rfl rfl) ?_
  rintro _ _ rfl
  refine .bind (admits_destroyUnlessNull idle rfl rfl) ?_
  rintro _ _ rfl
  refine .bind (admits_destroyUnlessNull idle rfl rfl) ?_
  rintro _ _ rfl
  refine .bind (admits_destroyUnlessNull idle rfl rfl) ?_
  rintro _ _ rfl
  refine .bind (admits_destroyUnlessNull idle rfl rfl) ?_
  rintro _ _ rfl
  refine .bind (admits_destroyUnlessNull idle rfl rfl) ?_
  rintro _ _ rfl
  refine .bind (admits_destroyUnlessNull idle rfl (List.append_nil _).symm) ?_
  rintro _ _ rfl
  have free : dkProtocol.Admits { l with live := [] }
      (if g.shaderCtrl ≠ 0 then Program.call (DkCall.free g.shaderCtrl) else pure ())
      fun _ l' => l' = { l with live := [], heap := [] } := by
    refine .ite (fun ne => ?_) fun null => .of_pure ?_
    · rw [PumpGlobals.blob, if_neg ne] at heap
      refine .of_call (decide_eq_true ⟨idle, (g.shaderCtrl, size), ?_, rfl, Nat.zero_le _⟩)
        fun _ => ?_
      · rw [heap]
        exact List.mem_singleton_self _
      · have left : (l.heap.filter fun r => r.1 ≠ g.shaderCtrl) = [] := by simp [heap]
        change { l with live := [], heap := l.heap.filter fun r => r.1 ≠ g.shaderCtrl } = _
        rw [left]
    · rw [PumpGlobals.blob, if_pos (not_not.1 null)] at heap
      rw [← heap]
  refine free.bind ?_
  rintro _ _ rfl
  exact .of_pure ⟨rfl, rfl⟩

end NxMemTest
