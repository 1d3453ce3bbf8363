import NxMemTest.GpuPumpSafety

/-! `nxmt_gpu_bench_run` of `nx/gpu_bench.c`, with any answers of deko3d. What it prints and
its boot stages are left out. -/

namespace NxMemTest
open Interaction Protocol

/-! ### The function -/

section
variable (storageBase bufferSizeAligned : Word)

def benchCmdStorage : Region := ⟨storageBase, benchCmdBytes⟩
def benchSrcStorage : Region := ⟨storageBase + benchCmdBytes, bufferSizeAligned⟩
def benchDstStorage : Region := ⟨storageBase + benchCmdBytes + bufferSizeAligned, bufferSizeAligned⟩

example : benchRegions storageBase bufferSizeAligned =
    [benchCmdStorage storageBase, benchSrcStorage storageBase bufferSizeAligned,
      benchDstStorage storageBase bufferSizeAligned] := rfl

end

structure BenchBuffers where
  device : DkHandle
  cmdMem : DkHandle
  cmdbuf : DkHandle
  src : DkHandle
  dst : DkHandle

/-- The way out when something of it is missing. -/
def BenchBuffers.drop (b : BenchBuffers) : GpuProgram Unit := do
  destroyUnlessNull .memBlock b.dst
  destroyUnlessNull .memBlock b.src
  destroyUnlessNull .cmdBuf b.cmdbuf
  destroyUnlessNull .memBlock b.cmdMem
  Program.call (DkCall.destroy .device b.device)

/-- The destructions that each way out from the queue on ends with. -/
def BenchBuffers.destroy (b : BenchBuffers) : GpuProgram Unit := do
  Program.call (DkCall.destroy .memBlock b.dst)
  Program.call (DkCall.destroy .memBlock b.src)
  Program.call (DkCall.destroy .cmdBuf b.cmdbuf)
  Program.call (DkCall.destroy .memBlock b.cmdMem)
  Program.call (DkCall.destroy .device b.device)

/-- The storages of the bench, for a buffer of whole pages. -/
structure BenchStorage (base bytes : Word) : Prop where
  aligned : base.toNat % 4096 = 0
  pages : bytes.toNat % 4096 = 0
  some_bytes : 0 < bytes.toNat
  small : bytes.toNat < 2 ^ 32
  top : base.toNat + 65536 + 2 * bytes.toNat ≤ 2 ^ 64

/-- The blocks are what `nxmt_gpu_bench_run` makes of the storages. -/
structure PumpBlocks.FitBench (k : PumpBlocks) (base bytes : Word) : Prop where
  cmd : (benchCmdStorage base).memBlock = k.cmd
  src : (benchSrcStorage base bytes).memBlock = k.src
  dst : (benchDstStorage base bytes).memBlock = k.dst
  cached : k.cached = true
  cmd_mappable : k.cmd.Mappable
  src_mappable : k.src.Mappable
  dst_mappable : k.dst.Mappable
  cmd_size : k.cmd.size.toNat = 65536
  src_size : k.src.size.toNat = bytes.toNat
  dst_size : k.dst.size.toNat = bytes.toNat
  src_base : k.src.base.toNat = k.cmd.base.toNat + 65536
  dst_base : k.dst.base.toNat = k.cmd.base.toNat + 65536 + bytes.toNat
  small : bytes.toNat < 2 ^ 32

theorem BenchStorage.exists_fit {base bytes : Word} (h : BenchStorage base bytes) :
    ∃ k : PumpBlocks, k.FitBench base bytes := by
  have aligned := h.aligned
  have pages := h.pages
  have some_bytes := h.some_bytes
  have small := h.small
  have top := h.top
  have cmd : benchCmdBytes.toNat = 65536 := by decide
  have cmd_base : (benchCmdStorage base).base.toNat = base.toNat := rfl
  have cmd_size : (benchCmdStorage base).size.toNat = 65536 := cmd
  have src_base : (benchSrcStorage base bytes).base.toNat = base.toNat + benchCmdBytes.toNat :=
    toNat_add_of_lt (by omega)
  have src_size : (benchSrcStorage base bytes).size.toNat = bytes.toNat := rfl
  have dst_base : (benchDstStorage base bytes).base.toNat =
      (benchSrcStorage base bytes).base.toNat + bytes.toNat := by
    refine toNat_add_of_lt ?_
    change (benchSrcStorage base bytes).base.toNat + bytes.toNat < 2 ^ 64
    omega
  have dst_size : (benchDstStorage base bytes).size.toNat = bytes.toNat := rfl
  have src_start : (benchSrcStorage base bytes).base.toNat =
      (benchCmdStorage base).base.toNat + 65536 := by omega
  have dst_start : (benchDstStorage base bytes).base.toNat =
      (benchCmdStorage base).base.toNat + 65536 + bytes.toNat := by omega
  have cmd_mappable : (benchCmdStorage base).Mappable :=
    ⟨aligned, by omega, by omega, by omega⟩
  have src_mappable : (benchSrcStorage base bytes).Mappable :=
    ⟨by omega, by omega, by omega, by omega⟩
  have dst_mappable : (benchDstStorage base bytes).Mappable :=
    ⟨by omega, by omega, by omega, by omega⟩
  -- there is neither a shader nor a result block
  exact ⟨⟨benchCmdStorage base, ⟨0, 0⟩, ⟨0, 0⟩, benchSrcStorage base bytes,
    benchDstStorage base bytes, true⟩, Region.memBlock_eq (by omega), Region.memBlock_eq small,
    Region.memBlock_eq small, rfl, cmd_mappable, src_mappable, dst_mappable, cmd_size, src_size,
    dst_size, src_start, dst_start, small⟩

/-! ### Its handles -/

namespace BenchBuffers
variable {k : PumpBlocks} {bytes : Word} {t : Told}

/-- The handles of the bench are those of a pump without shader and result. -/
def globals (b : BenchBuffers) (queue : DkHandle) : PumpGlobals :=
  ⟨b.device, b.cmdMem, 0, 0, b.cmdbuf, b.src, b.dst, queue, 0, 0, 0, 0⟩

structure Complete (b : BenchBuffers) : Prop where
  device : b.device ≠ 0
  cmdMem : b.cmdMem ≠ 0
  cmdbuf : b.cmdbuf ≠ 0
  src : b.src ≠ 0
  dst : b.dst ≠ 0

/-- The ledger once the list is recorded. -/
def ready (k : PumpBlocks) (bytes : Word) (t : Told) (b : BenchBuffers) (list : DkCmdList)
    (queue : DkHandle) : Ledger :=
  { (b.globals queue).creating k t with
    recorded := Function.update (fun _ => none) b.cmdbuf (some [])
    lists := [(list, b.cmdbuf, [.copyBuffer b.src b.dst (bytes.setWidth 32)])] }

end BenchBuffers

/-! ### Up to the list -/

section
variable {k : PumpBlocks} {base bytes : Word} {t : Told}

variable {b : BenchBuffers} (complete : b.Complete) {list : DkCmdList} {queue : DkHandle}

theorem BenchBuffers.objects_queue (ne : queue ≠ 0) :
    (b.globals queue).objects k = (queue, .queue b.device) :: (b.globals 0).objects k := by
  rw [PumpGlobals.objects, globals, slot_of_ne ne]
  rfl

theorem BenchBuffers.create_queue (h : DkHandle) :
    (b.ready k bytes t list 0).create h (.queue b.device) = b.ready k bytes t list h := by
  rw [Ledger.create]
  split
  · rename_i null
    rw [null]
  · rename_i ne
    simp only [ready, PumpGlobals.creating, objects_queue ne]
    rfl

include complete

theorem BenchBuffers.Complete.creatable_queue :
    (b.ready k bytes t list 0).Creatable (.queue b.device) := by
  have device : (b.ready k bytes t list 0).Has b.device (· = .device) :=
    .of_mem (PumpGlobals.mem_device (g := b.globals 0) complete.device) rfl
  exact device

end

/-! ### The whole function -/

section
variable {storageBase storageSize bufferSize : Word} {iterations : BitVec 32}

end

/-! The first step of `run_gpu_bench_screen`, and the same with one page and an error that is
reported once there is a queue. -/

end NxMemTest
