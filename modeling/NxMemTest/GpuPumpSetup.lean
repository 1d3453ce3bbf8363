import NxMemTest.GpuPumpStage

/-! `pump_setup` with any answers: what the ledger says after each of its parts. -/

namespace NxMemTest
open Interaction Protocol

variable {k : PumpBlocks} {size : Nat} {bytes : Word} {t : Told}

def PumpGlobals.copies (bytes : Word) (g : PumpGlobals) : List DkCommand :=
  [.copyBuffer g.src g.dst (bytes.setWidth 32)]

def PumpGlobals.verifies (bytes : Word) (g : PumpGlobals) : List DkCommand :=
  [.bindShaders, .bindStorageBuffer 0 g.src (bytes.setWidth 32),
    .bindStorageBuffer 1 g.dst (bytes.setWidth 32),
    .bindStorageBuffer 2 g.resultMem (pumpResultBytes.setWidth 32),
    .dispatchCompute (pumpVerifyList bytes).numGroups]

def PumpGlobals.creating (k : PumpBlocks) (t : Told) (g : PumpGlobals) : Ledger :=
  { Ledger.start t with live := g.objects k }

def PumpGlobals.loaded (k : PumpBlocks) (size : Nat) (t : Told) (g : PumpGlobals) : Ledger :=
  { g.creating k t with
    heap := [(g.shaderCtrl, size)], shader := some (g.shaderMem, g.shaderCtrl) }

def PumpGlobals.ready (k : PumpBlocks) (size : Nat) (bytes : Word) (t : Told) (g : PumpGlobals) :
    Ledger :=
  { g.loaded k size t with
    recorded := Function.update (fun _ => none) g.cmdbuf (some [])
    lists := [(g.verifyList, g.cmdbuf, g.verifies bytes), (g.copyList, g.cmdbuf, g.copies bytes)] }

theorem PumpGlobals.loaded_resultWord (g : PumpGlobals) (p : Word) :
    ({ g with resultWord := p } : PumpGlobals).loaded k size t = g.loaded k size t := rfl

structure PumpGlobals.Complete (k : PumpBlocks) (g : PumpGlobals) : Prop where
  queue : g.queue ≠ 0
  src : g.src ≠ 0
  dst : g.dst ≠ 0
  cmdbuf : g.cmdbuf ≠ 0
  resultMem : g.resultMem ≠ 0
  shaderMem : g.shaderMem ≠ 0
  shaderCtrl : g.shaderCtrl ≠ 0
  resultWord : g.resultWord = k.result.base

/-- How `pump_setup` ends: the globals say what there is, and on success there is
everything. -/
structure SetUp (k : PumpBlocks) (size : Nat) (bytes : Word) (t : Told) (r : Bool × PumpGlobals)
    (l : Ledger) : Prop where
  live : l.live = r.2.objects k
  heap : l.heap = r.2.blob size
  idle : l.busy = false
  submitted : l.submitted = []
  words : l.words = []
  told : l.told = t
  ready : r.1 = true → r.2.Complete k ∧ l = r.2.ready k size bytes t

theorem SetUp.of_creating {g : PumpGlobals} (none : g.shaderCtrl = 0) (quit : Bool) :
    SetUp k size bytes t (false, g) { g.creating k t with quit := quit } where
  live := rfl
  heap := (if_pos none).symm
  idle := rfl
  submitted := rfl
  words := rfl
  told := rfl
  ready := nofun

theorem SetUp.of_ready {g : PumpGlobals} (some_ctrl : g.shaderCtrl ≠ 0) (quit : Bool) :
    SetUp k size bytes t (false, g) { g.ready k size bytes t with quit := quit } where
  live := rfl
  heap := (if_neg some_ctrl).symm
  idle := rfl
  submitted := rfl
  words := rfl
  told := rfl
  ready := nofun

namespace Ledger
variable {l : Ledger}

theorem admits_unlessError {g : PumpGlobals} {p : GpuProgram (Bool × PumpGlobals)}
    {Q : Bool × PumpGlobals → Ledger → Prop} (running : l.quit = false)
    (failed : Q (false, g) { l with quit := true }) (rest : dkProtocol.Admits l p Q) :
    dkProtocol.Admits l
      (Program.call DkCall.errorSeen >>= fun seen => if seen then pure (false, g) else p) Q := by
  refine .call_bind rfl fun seen => ?_
  have after : dkProtocol.after .errorSeen seen l = { l with quit := seen } := by
    change { l with quit := l.quit || seen } = _
    rw [running, Bool.false_or]
  rw [after]
  cases seen with
  | true => exact .of_pure failed
  | false =>
    have same : { l with quit := false } = l := by rw [← running]
    rw [same]
    exact rest

theorem Maps.of_block {h device : DkHandle} {storage : Region} {code cpuCached : Bool} {p : Word}
    {n : Nat} (mem : (h, .memBlock device storage code cpuCached) ∈ l.live)
    (start : storage.base = p) (fits : n ≤ storage.size.toNat) : l.Maps p n := by
  subst start
  exact ⟨_, mem, decide_eq_true ⟨le_rfl, Nat.add_le_add_left fits _⟩⟩

/-! ### Recording -/

def recording (l : Ledger) (cmdbuf : DkHandle) (commands : List DkCommand) : Ledger :=
  { l with recorded := Function.update l.recorded cmdbuf (some commands) }

variable {cmdbuf : DkHandle} (buf : l.Has cmdbuf (·.kind = .cmdBuf))
include buf

theorem admits_record {command : DkCommand} (commands : List DkCommand) (fits : l.Fits command) :
    dkProtocol.Admits (l.recording cmdbuf commands) (Program.call (DkCall.record cmdbuf command))
      fun _ l' => l' = l.recording cmdbuf (commands ++ [command]) := by
  have so_far : (l.recording cmdbuf commands).recorded cmdbuf = some commands :=
    Function.update_self ..
  refine .of_call (decide_eq_true ⟨buf, by rw [so_far]; exact nofun, fits⟩) fun _ => ?_
  change Ledger.after (.record cmdbuf command) () (l.recording cmdbuf commands) = _
  rw [Ledger.after, so_far]
  simp only [recording, Function.update_idem, Option.map_some]

theorem admits_finishList {commands : List DkCommand} :
    dkProtocol.Admits (l.recording cmdbuf commands) (Program.call (DkCall.finishList cmdbuf))
      fun list l' => l' =
        ({ l with lists := (list, cmdbuf, commands) :: l.lists } : Ledger).recording cmdbuf [] := by
  have so_far : (l.recording cmdbuf commands).recorded cmdbuf = some commands :=
    Function.update_self ..
  refine .of_call (decide_eq_true ⟨buf, by rw [so_far]; exact nofun⟩) fun list => ?_
  change Ledger.after (.finishList cmdbuf) list (l.recording cmdbuf commands) = _
  rw [Ledger.after, so_far]
  simp only [recording, Function.update_idem, Option.getD_some]

end Ledger

/-! ### Creating -/

section
variable {g : PumpGlobals}

theorem PumpGlobals.objects_apart {r : Region}
    (cmd : g.cmdMem ≠ 0 → k.cmd.base.toNat + k.cmd.size.toNat ≤ r.base.toNat)
    (shader : g.shaderMem ≠ 0 → k.shader.base.toNat + k.shader.size.toNat ≤ r.base.toNat)
    (result : g.resultMem ≠ 0 → k.result.base.toNat + k.result.size.toNat ≤ r.base.toNat)
    (src : g.src ≠ 0 → k.src.base.toNat + k.src.size.toNat ≤ r.base.toNat) (dst : g.dst = 0) :
    ∀ x ∈ g.objects k, x.2.apart r := by
  have below : ∀ {device : DkHandle} {storage : Region} {code cpuCached : Bool},
      storage.base.toNat + storage.size.toNat ≤ r.base.toNat →
        (DkObject.memBlock device storage code cpuCached).apart r := fun le =>
    decide_eq_true (.inl le)
  simp only [PumpGlobals.objects, List.forall_mem_append, forall_mem_slot]
  exact ⟨fun _ => rfl, absurd dst, fun ne => below (src ne), fun _ => rfl,
    fun ne => below (result ne), fun ne => below (shader ne), fun ne => below (cmd ne), fun _ => rfl⟩

theorem PumpGlobals.creatable_block {r : Region} {code cpuCached : Bool} (ne : g.device ≠ 0)
    (mappable : r.Mappable) (apart : ∀ x ∈ g.objects k, x.2.apart r) :
    (g.creating k t).Creatable (.memBlock g.device r code cpuCached) :=
  ⟨.of_mem (mem_device ne) rfl, mappable.base_page, mappable.size_page, mappable.nonempty,
    mappable.top, apart⟩

theorem dkMemBlockCreate_eq {device : DkHandle} {storage r : Region} {code cpuCached cached : Bool}
    (same : storage.memBlock = r) (agree : cached = cpuCached) :
    Program.call (DkCall.create (.memBlock device r code cached)) =
      dkMemBlockCreate device storage code cpuCached := by
  rw [dkMemBlockCreate, same, agree]

theorem PumpGlobals.creatable_cmdBuf (ne : g.device ≠ 0) :
    (g.creating k t).Creatable (.cmdBuf g.device) := by
  have device : (g.creating k t).Has g.device (· = .device) := .of_mem (mem_device ne) rfl
  exact device

theorem PumpGlobals.creatable_queue (ne : g.device ≠ 0) :
    (g.ready k size bytes t).Creatable (.queue g.device) := by
  have device : (g.ready k size bytes t).Has g.device (· = .device) := .of_mem (mem_device ne) rfl
  exact device

theorem PumpGlobals.create_queue (none : g.queue = 0) (h : DkHandle) :
    (g.ready k size bytes t).create h (.queue g.device) =
      ({ g with queue := h } : PumpGlobals).ready k size bytes t := by
  have objects : ({ g with queue := h } : PumpGlobals).objects k =
      slot h (.queue g.device) ++ g.objects k := by simp [PumpGlobals.objects, none]
  simp only [Ledger.create, PumpGlobals.ready, PumpGlobals.loaded, PumpGlobals.creating, objects]
  split
  · rename_i null
    rw [null, slot_null, List.nil_append]
    rfl
  · rename_i ne
    rw [slot_of_ne ne]
    rfl

/-- A creation fills the slot of its handle. -/
theorem admits_create {m : DkHandle → PumpGlobals} {o : DkObject} {p : GpuProgram DkHandle}
    (same : Program.call (DkCall.create o) = p) (creatable : (g.creating k t).Creatable o)
    (objects : ∀ h, (m h).objects k = slot h o ++ g.objects k) :
    dkProtocol.Admits (g.creating k t) p fun h l => l = (m h).creating k t := by
  subst same
  refine .of_call (decide_eq_true creatable) fun h => ?_
  change (g.creating k t).create h o = _
  rw [Ledger.create, PumpGlobals.creating, PumpGlobals.creating, objects]
  split
  · rename_i null
    rw [null, slot_null, List.nil_append]
  · rename_i ne
    rw [slot_of_ne ne]
    have unfed : Function.update (fun _ => none) h none = fun _ : DkHandle =>
        (none : Option (List DkCommand)) := Function.update_eq_self ..
    simp only [Ledger.start, unfed, ite_self]
    rfl

theorem admits_created {m : DkHandle → PumpGlobals} {o : DkObject} {p : GpuProgram DkHandle}
    {f : DkHandle → GpuProgram (Bool × PumpGlobals)} (same : Program.call (DkCall.create o) = p)
    (creatable : (g.creating k t).Creatable o)
    (objects : ∀ h, (m h).objects k = slot h o ++ g.objects k)
    (unloaded : ∀ h, (m h).shaderCtrl = 0)
    (rest : ∀ h, h ≠ 0 → dkProtocol.Admits ((m h).creating k t) (f h) (SetUp k size bytes t)) :
    dkProtocol.Admits (g.creating k t) (p >>= fun h => if h = 0 then pure (false, m h) else f h)
      (SetUp k size bytes t) := by
  refine (admits_create same creatable objects).bind ?_
  rintro h _ rfl
  exact .ite (fun _ => .of_pure (.of_creating (unloaded h) false)) (rest h)

end

/-! ### The shader -/

/-- Nothing of the blob is read past its end, and neither the heap block nor the storage of
the shader is written past its own. -/
theorem admits_pumpLoadShader {base : Word} (fit : k.Fit base bytes) (dksh : List (BitVec 8))
    {g : PumpGlobals} (mem : g.shaderMem ≠ 0) :
    dkProtocol.Admits (g.creating k t)
      (pumpLoadShader dksh (pumpShaderStorage base).base pumpShaderBytes g)
      fun r l => r = (false, g) ∧ l = g.creating k t ∨
        ∃ ctrl, ctrl ≠ 0 ∧ r = (true, { g with shaderCtrl := ctrl }) ∧
          l = ({ g with shaderCtrl := ctrl } : PumpGlobals).loaded k
            (DkshHeader.read dksh).controlSz.toNat t := by
  let size := (DkshHeader.read dksh).controlSz.toNat
  unfold pumpLoadShader
  refine .ite (fun _ => .of_pure (.inl ⟨rfl, rfl⟩)) fun _ => ?_
  refine .ite (fun _ => .of_pure (.inl ⟨rfl, rfl⟩)) fun small => ?_
  refine .ite (fun _ => .of_pure (.inl ⟨rfl, rfl⟩)) fun _ => ?_
  refine .call_bind rfl fun ctrl =>
    .ite (fun null => .of_pure (.inl ⟨rfl, if_pos null⟩)) fun ne => ?_
  have allocated : dkProtocol.after (.malloc size) ctrl (g.creating k t) =
      { g.creating k t with heap := [(ctrl, size)] } := if_neg ne
  have block : (g.shaderMem, .memBlock g.device k.shader true false) ∈ g.objects k :=
    PumpGlobals.mem_shaderMem mem
  rw [allocated]
  refine .call_bind (decide_eq_true ⟨_, List.mem_singleton_self _, rfl, List.length_take_le _ _⟩)
    fun _ => ?_
  have fits : ((dksh.drop size).take (DkshHeader.read dksh).codeSz.toNat).length ≤
      k.shader.size.toNat := by
    have limit : pumpShaderBytes.toNat = 16384 := by decide
    have length := List.length_take_le (DkshHeader.read dksh).codeSz.toNat (dksh.drop size)
    rw [limit] at small
    rw [fit.shader_size]
    omega
  have start := Region.memBlock_base fit.shader
  refine .call_bind (decide_eq_true ⟨rfl, .of_block block start fits⟩) fun _ => ?_
  refine .call_bind (decide_eq_true ⟨.of_mem block rfl, _, List.mem_singleton_self _, rfl,
    Nat.zero_le _⟩) fun _ => ?_
  exact .of_pure (.inr ⟨ctrl, ne, rfl, rfl⟩)

/-! ### The lists -/

theorem admits_pumpRecord {base : Word} (fit : k.Fit base bytes) {g : PumpGlobals}
    (cmdMem : g.cmdMem ≠ 0) (shaderMem : g.shaderMem ≠ 0) (resultMem : g.resultMem ≠ 0)
    (cmdbuf : g.cmdbuf ≠ 0) (src : g.src ≠ 0) (dst : g.dst ≠ 0) :
    dkProtocol.Admits (g.loaded k size t) (pumpRecord bytes g)
      fun g' l => (∃ copyList verifyList, g' =
          { g with copyList := copyList, verifyList := verifyList }) ∧
        l = g'.ready k size bytes t := by
  let l := g.loaded k size t
  have cmd_fits : (pumpCmdBytes.setWidth 32).toNat ≤ k.cmd.size.toNat := by
    rw [fit.cmd_size]
    decide
  have buf : l.Has g.cmdbuf (·.kind = .cmdBuf) := .of_mem (PumpGlobals.mem_cmdbuf cmdbuf) rfl
  have cmd_holds : l.Has g.cmdMem (DkObject.holds (pumpCmdBytes.setWidth 32).toNat) :=
    .of_block (PumpGlobals.mem_cmdMem cmdMem) cmd_fits
  obtain ⟨src_holds, dst_holds, result_holds⟩ := fit.holds (l := l) rfl src dst resultMem
  have ready : l.ShaderReady := ⟨_, rfl, .of_mem (PumpGlobals.mem_shaderMem shaderMem) rfl,
    _, List.mem_singleton_self _, rfl, Nat.zero_le _⟩
  refine .call_bind (decide_eq_true ⟨buf, cmd_holds⟩) fun _ => ?_
  refine .bind (Ledger.admits_record (l := l) buf [] ⟨src_holds, dst_holds⟩) ?_
  rintro _ _ rfl
  refine .bind (Ledger.admits_finishList buf) ?_
  rintro copyList _ rfl
  let l₁ : Ledger := { l with lists := [(copyList, g.cmdbuf, g.copies bytes)] }
  refine .bind (Ledger.admits_record (l := l₁) buf [] ready) ?_
  rintro _ _ rfl
  refine .bind (Ledger.admits_record (l := l₁) buf _ src_holds) ?_
  rintro _ _ rfl
  refine .bind (Ledger.admits_record (l := l₁) buf _ dst_holds) ?_
  rintro _ _ rfl
  refine .bind (Ledger.admits_record (l := l₁) buf _ result_holds) ?_
  rintro _ _ rfl
  refine .bind (Ledger.admits_record (l := l₁) buf _ trivial) ?_
  rintro _ _ rfl
  refine .bind (Ledger.admits_finishList (l := l₁) buf) ?_
  rintro verifyList _ rfl
  exact .of_pure ⟨⟨copyList, verifyList, rfl⟩, rfl⟩

/-! ### All of it -/

theorem PumpGlobals.Null.creating {g : PumpGlobals} (null : g.Null) (k : PumpBlocks) (t : Told) :
    g.creating k t = Ledger.start t := by
  rw [PumpGlobals.creating, PumpGlobals.objects, null.queue, null.dst, null.src, null.cmdbuf,
    null.resultMem, null.shaderMem, null.cmdMem, null.device]
  rfl

/-- Whatever deko3d answers, no creation is out of order, nothing is stored or recorded
where it must not be, and the globals say how far the setup came. -/
theorem admits_pumpSetup {p : PumpParams} (fit : k.Fit p.storageBase bytes) {g : PumpGlobals}
    (null : g.Null) :
    dkProtocol.Admits (Ledger.start t) (pumpSetup p bytes g)
      (SetUp k (DkshHeader.read p.gpuVerifyDksh).controlSz.toNat bytes t) := by
  rw [← null.creating k t]
  have cmd_size := fit.cmd_size
  have shader_size := fit.shader_size
  have result_size := fit.result_size
  have src_size := fit.src_size
  have shader_base := fit.shader_base
  have result_base := fit.result_base
  have src_base := fit.src_base
  have dst_base := fit.dst_base
  -- from here on the globals are followed from one creation to the next
  let g1 (h : DkHandle) : PumpGlobals := { g with device := h }
  refine admits_created (m := g1) rfl trivial (fun h => ?_) (fun _ => null.shaderCtrl)
    fun device device_ne => ?_
  · simp [PumpGlobals.objects, g1, null.queue, null.dst, null.src, null.cmdbuf, null.resultMem,
      null.shaderMem, null.cmdMem, null.device]
  refine Ledger.admits_unlessError rfl (.of_creating (g := g1 device) null.shaderCtrl true) ?_
  let g2 (h : DkHandle) : PumpGlobals := { g1 device with cmdMem := h }
  refine admits_created (m := g2) (dkMemBlockCreate_eq fit.cmd rfl)
    (PumpGlobals.creatable_block device_ne fit.cmd_mappable (PumpGlobals.objects_apart
      (absurd null.cmdMem) (absurd null.shaderMem) (absurd null.resultMem) (absurd null.src)
      null.dst)) (fun h => ?_) (fun _ => null.shaderCtrl) fun cmdMem cmdMem_ne => ?_
  · simp [PumpGlobals.objects, g1, g2, null.queue, null.dst, null.src, null.cmdbuf,
      null.resultMem, null.shaderMem, null.cmdMem]
  let g3 (h : DkHandle) : PumpGlobals := { g2 cmdMem with shaderMem := h }
  refine admits_created (m := g3) (dkMemBlockCreate_eq fit.shader rfl)
    (PumpGlobals.creatable_block device_ne fit.shader_mappable (PumpGlobals.objects_apart
      (fun _ => by omega) (absurd null.shaderMem) (absurd null.resultMem) (absurd null.src)
      null.dst)) (fun h => ?_) (fun _ => null.shaderCtrl) fun shaderMem shaderMem_ne => ?_
  · simp [PumpGlobals.objects, g1, g2, g3, null.queue, null.dst, null.src, null.cmdbuf,
      null.resultMem, null.shaderMem]
  let g4 (h : DkHandle) : PumpGlobals := { g3 shaderMem with resultMem := h }
  refine admits_created (m := g4) (dkMemBlockCreate_eq fit.result rfl)
    (PumpGlobals.creatable_block device_ne fit.result_mappable (PumpGlobals.objects_apart
      (fun _ => by omega) (fun _ => by omega) (absurd null.resultMem) (absurd null.src)
      null.dst)) (fun h => ?_) (fun _ => null.shaderCtrl) fun resultMem resultMem_ne => ?_
  · simp [PumpGlobals.objects, g1, g2, g3, g4, null.queue, null.dst, null.src, null.cmdbuf,
      null.resultMem]
  let g5 (h : DkHandle) : PumpGlobals := { g4 resultMem with cmdbuf := h }
  refine admits_created (m := g5) rfl (PumpGlobals.creatable_cmdBuf (g := g4 resultMem) device_ne)
    (fun h => ?_) (fun _ => null.shaderCtrl) fun cmdbuf cmdbuf_ne => ?_
  · simp [PumpGlobals.objects, g1, g2, g3, g4, g5, null.queue, null.dst, null.src, null.cmdbuf]
  let g6 (h : DkHandle) : PumpGlobals := { g5 cmdbuf with src := h }
  refine admits_created (m := g6) (dkMemBlockCreate_eq fit.src fit.cached)
    (PumpGlobals.creatable_block device_ne fit.src_mappable (PumpGlobals.objects_apart
      (fun _ => by omega) (fun _ => by omega) (fun _ => by omega) (absurd null.src)
      null.dst)) (fun h => ?_) (fun _ => null.shaderCtrl) fun src src_ne => ?_
  · simp [PumpGlobals.objects, g1, g2, g3, g4, g5, g6, null.queue, null.dst, null.src]
  let g7 (h : DkHandle) : PumpGlobals := { g6 src with dst := h }
  refine admits_created (m := g7) (dkMemBlockCreate_eq fit.dst fit.cached)
    (PumpGlobals.creatable_block device_ne fit.dst_mappable (PumpGlobals.objects_apart
      (fun _ => by omega) (fun _ => by omega) (fun _ => by omega) (fun _ => by omega)
      null.dst)) (fun h => ?_) (fun _ => null.shaderCtrl) fun dst dst_ne => ?_
  · simp [PumpGlobals.objects, g1, g2, g3, g4, g5, g6, g7, null.queue, null.dst]
  refine Ledger.admits_unlessError rfl (.of_creating (g := g7 dst) null.shaderCtrl true) ?_
  have src_mem : (src, .memBlock device k.src false k.cached) ∈ (g7 dst).objects k :=
    PumpGlobals.mem_src (g := g7 dst) src_ne
  have result_mem : (resultMem, .memBlock device k.result false false) ∈ (g7 dst).objects k :=
    PumpGlobals.mem_resultMem (g := g7 dst) resultMem_ne
  have result_place := Region.memBlock_base fit.result
  refine .call_bind (decide_eq_true ⟨rfl, .of_block src_mem (Region.memBlock_base fit.src)
    fit.src_size.ge⟩) fun _ => ?_
  refine (admits_pumpLoadShader fit p.gpuVerifyDksh shaderMem_ne).bind ?_
  rintro _ _ (⟨rfl, rfl⟩ | ⟨ctrl, ctrl_ne, rfl, rfl⟩)
  · exact .of_pure (.of_creating (g := g7 dst) null.shaderCtrl false)
  let size := (DkshHeader.read p.gpuVerifyDksh).controlSz.toNat
  let resultWord := (pumpResultStorage p.storageBase).base
  let g8 : PumpGlobals := { g7 dst with shaderCtrl := ctrl }
  let g9 : PumpGlobals := { g8 with resultWord := resultWord }
  refine .call_bind (decide_eq_true ⟨rfl, .of_block result_mem result_place
    (by rw [result_size]; decide)⟩) fun _ => ?_
  have placed : dkProtocol.after (.storeWord resultWord 0) () (g8.loaded k size t) =
      g9.loaded k size t := (g8.loaded_resultWord resultWord).symm
  rw [placed]
  refine (admits_pumpRecord (g := g9) fit cmdMem_ne shaderMem_ne resultMem_ne cmdbuf_ne src_ne
    dst_ne).bind ?_
  rintro _ _ ⟨⟨copyList, verifyList, rfl⟩, rfl⟩
  let g10 : PumpGlobals := { g9 with copyList := copyList, verifyList := verifyList }
  let g11 (h : DkHandle) : PumpGlobals := { g10 with queue := h }
  refine .call_bind (e := DkCall.create (.queue device)) (decide_eq_true
    (PumpGlobals.creatable_queue (g := g10) device_ne)) fun queue => ?_
  have created : dkProtocol.after (.create (.queue device)) queue (g10.ready k size bytes t) =
      (g11 queue).ready k size bytes t := PumpGlobals.create_queue (g := g10) null.queue queue
  rw [created]
  refine .ite (fun _ => .of_pure (.of_ready (g := g11 queue) ctrl_ne false)) fun queue_ne => ?_
  refine Ledger.admits_unlessError rfl (.of_ready (g := g11 queue) ctrl_ne true) (.of_pure ?_)
  exact {
    live := rfl
    heap := (if_neg ctrl_ne).symm
    idle := rfl
    submitted := rfl
    words := rfl
    told := rfl
    ready := fun _ => ⟨⟨queue_ne, src_ne, dst_ne, cmdbuf_ne, resultMem_ne, shaderMem_ne, ctrl_ne,
      result_place.symm⟩, rfl⟩ }

end NxMemTest
