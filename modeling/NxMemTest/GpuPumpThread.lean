import NxMemTest.GpuLedger

/-! `pump_thread_entry` of `nx/gpu_pump.c` with everything it calls. Log lines and boot
stages are left out. -/

namespace NxMemTest
open Interaction

/-! ### deko3d, as it is called -/

def dkDeviceCreate : GpuProgram DkHandle := Program.call (DkCall.create .device)

/-- Sizes are 32 bits wide in a `DkMemBlockMaker`. -/
def dkMemBlockCreate (device : DkHandle) (storage : Region) (code cpuCached : Bool) :
    GpuProgram DkHandle :=
  Program.call (DkCall.create (.memBlock device storage.memBlock code cpuCached))

def dkCmdBufCreate (device : DkHandle) : GpuProgram DkHandle :=
  Program.call (DkCall.create (.cmdBuf device))

def dkQueueCreate (device : DkHandle) : GpuProgram DkHandle :=
  Program.call (DkCall.create (.queue device))

def destroyUnlessNull (kind : DkObject.Kind) (h : DkHandle) : GpuProgram Unit :=
  if h ≠ 0 then Program.call (DkCall.destroy kind h) else pure ()

/-! ### The globals -/

/-- `g_pump_*`, as far as `pump_setup` sets them. -/
structure PumpGlobals where
  device : DkHandle
  cmdMem : DkHandle
  shaderMem : DkHandle
  resultMem : DkHandle
  cmdbuf : DkHandle
  src : DkHandle
  dst : DkHandle
  queue : DkHandle
  shaderCtrl : Nat
  copyList : DkCmdList
  verifyList : DkCmdList
  resultWord : Word

/-- What `nxmt_gpu_pump_start` has left for the thread, and the embedded shader. A counter
is there unless its pointer is NULL. -/
structure PumpParams where
  storageBase : Word
  bufferBytes : Word
  seed : Word
  progress : Bool
  errors : Bool
  verified : Bool
  gpuVerifyDksh : List (BitVec 8)

/-! ### `pump_load_shader` -/

structure DkshHeader where
  magic : BitVec 32
  headerSz : BitVec 32
  controlSz : BitVec 32
  codeSz : BitVec 32
  programsOff : BitVec 32
  numPrograms : BitVec 32

def dkshHeaderBytes : Nat := 24

def DkshHeader.read (dksh : List (BitVec 8)) : DkshHeader :=
  let word := uintAt fun k => dksh.getD k 0
  ⟨word 0, word 4, word 8, word 12, word 16, word 20⟩

def pumpLoadShader (dksh : List (BitVec 8)) (shaderCodeStorage shaderCodeMax : Word)
    (g : PumpGlobals) : GpuProgram (Bool × PumpGlobals) :=
  let total := dksh.length
  if total < dkshHeaderBytes then pure (false, g)
  else
    let hdr := DkshHeader.read dksh
    if hdr.codeSz.toNat > shaderCodeMax.toNat then pure (false, g)
    else if hdr.controlSz.toNat + hdr.codeSz.toNat > total then pure (false, g)
    else do
      let ctrl ← Program.call (DkCall.malloc hdr.controlSz.toNat)
      if ctrl = 0 then pure (false, g)
      else do
        Program.call (DkCall.fillHeap ctrl (dksh.take hdr.controlSz.toNat).length)
        Program.call (DkCall.storeBytes shaderCodeStorage
          ((dksh.drop hdr.controlSz.toNat).take hdr.codeSz.toNat))
        let g := { g with shaderCtrl := ctrl }
        Program.call (DkCall.shaderInitialize g.shaderMem ctrl)
        pure (true, g)

/-! ### `pump_setup` -/

section
variable (storageBase bufferAligned : Word)

def pumpCmdStorage : Region := ⟨storageBase, pumpCmdBytes⟩
def pumpShaderStorage : Region := ⟨storageBase + pumpCmdBytes, pumpShaderBytes⟩
def pumpResultStorage : Region := ⟨storageBase + pumpCmdBytes + pumpShaderBytes, pumpResultBytes⟩
def pumpSrcStorage : Region := ⟨storageBase + pumpPreambleBytes, bufferAligned⟩
def pumpDstStorage : Region := ⟨storageBase + pumpPreambleBytes + bufferAligned, bufferAligned⟩

example : pumpRegions storageBase bufferAligned =
    [pumpCmdStorage storageBase, pumpShaderStorage storageBase, pumpResultStorage storageBase,
      pumpSrcStorage storageBase bufferAligned, pumpDstStorage storageBase bufferAligned] := rfl

end

def pumpRecord (bufferAligned : Word) (g : PumpGlobals) : GpuProgram PumpGlobals := do
  let record command := Program.call (DkCall.record g.cmdbuf command)
  let bytes := bufferAligned.setWidth 32
  Program.call (DkCall.addMemory g.cmdbuf g.cmdMem (pumpCmdBytes.setWidth 32))
  record (.copyBuffer g.src g.dst bytes)
  let copyList ← Program.call (DkCall.finishList g.cmdbuf)
  record .bindShaders
  record (.bindStorageBuffer 0 g.src bytes)
  record (.bindStorageBuffer 1 g.dst bytes)
  record (.bindStorageBuffer 2 g.resultMem (pumpResultBytes.setWidth 32))
  record (.dispatchCompute (pumpVerifyList bufferAligned).numGroups)
  let verifyList ← Program.call (DkCall.finishList g.cmdbuf)
  pure { g with copyList := copyList, verifyList := verifyList }

/-- Every creation is checked before the next, and leaves its handle behind even when a
later one fails. -/
def pumpSetup (p : PumpParams) (bufferAligned : Word) (g : PumpGlobals) :
    GpuProgram (Bool × PumpGlobals) := do
  let device ← dkDeviceCreate
  let g := { g with device := device }
  if device = 0 then pure (false, g) else
  let errorSeen ← Program.call DkCall.errorSeen
  if errorSeen then pure (false, g) else
  let cmdMem ← dkMemBlockCreate g.device (pumpCmdStorage p.storageBase) false false
  let g := { g with cmdMem := cmdMem }
  if cmdMem = 0 then pure (false, g) else
  let shaderMem ← dkMemBlockCreate g.device (pumpShaderStorage p.storageBase) true false
  let g := { g with shaderMem := shaderMem }
  if shaderMem = 0 then pure (false, g) else
  let resultMem ← dkMemBlockCreate g.device (pumpResultStorage p.storageBase) false false
  let g := { g with resultMem := resultMem }
  if resultMem = 0 then pure (false, g) else
  let cmdbuf ← dkCmdBufCreate g.device
  let g := { g with cmdbuf := cmdbuf }
  if cmdbuf = 0 then pure (false, g) else
  let src ← dkMemBlockCreate g.device (pumpSrcStorage p.storageBase bufferAligned) false false
  let g := { g with src := src }
  if src = 0 then pure (false, g) else
  let dst ← dkMemBlockCreate g.device (pumpDstStorage p.storageBase bufferAligned) false false
  let g := { g with dst := dst }
  if dst = 0 then pure (false, g) else
  let errorSeen ← Program.call DkCall.errorSeen
  if errorSeen then pure (false, g) else
  let srcStorage := (pumpSrcStorage p.storageBase bufferAligned).base
  Program.call (DkCall.storePattern srcStorage bufferAligned p.seed)
  let (loaded, g) ← pumpLoadShader p.gpuVerifyDksh (pumpShaderStorage p.storageBase).base
    pumpShaderBytes g
  if !loaded then pure (false, g) else
  let g := { g with resultWord := (pumpResultStorage p.storageBase).base }
  Program.call (DkCall.storeWord g.resultWord 0)
  let g ← pumpRecord bufferAligned g
  let queue ← dkQueueCreate g.device
  let g := { g with queue := queue }
  if queue = 0 then pure (false, g) else
  let errorSeen ← Program.call DkCall.errorSeen
  if errorSeen then pure (false, g) else
  pure (true, g)

/-! ### `pump_teardown` and the thread -/

def pumpTeardown (g : PumpGlobals) : GpuProgram PumpGlobals := do
  (if g.queue ≠ 0 then do
    Program.call (DkCall.waitIdle g.queue)
    Program.call (DkCall.destroy .queue g.queue)
  else pure ())
  destroyUnlessNull .memBlock g.dst
  destroyUnlessNull .memBlock g.src
  destroyUnlessNull .cmdBuf g.cmdbuf
  destroyUnlessNull .memBlock g.resultMem
  destroyUnlessNull .memBlock g.shaderMem
  destroyUnlessNull .memBlock g.cmdMem
  destroyUnlessNull .device g.device
  (if g.shaderCtrl ≠ 0 then Program.call (DkCall.free g.shaderCtrl) else pure ())
  -- what was NULL before has stayed so
  pure { g with
    queue := 0, dst := 0, src := 0, cmdbuf := 0, resultMem := 0, shaderMem := 0, cmdMem := 0,
    device := 0, shaderCtrl := 0 }

def pumpBatch : Nat := 8

def submitCopies (queue : DkHandle) (copyList : DkCmdList) : Nat → GpuProgram Unit
  | 0 => pure ()
  | left + 1 => do
    Program.call (DkCall.submitCommands queue copyList)
    submitCopies queue copyList left

def pumpCycle (p : PumpParams) (perIterTraffic : Word) (g : PumpGlobals) : GpuProgram Unit := do
  Program.call (DkCall.storeWord g.resultWord 0)
  submitCopies g.queue g.copyList pumpBatch
  Program.call (DkCall.submitCommands g.queue g.verifyList)
  Program.call (DkCall.waitIdle g.queue)
  (if p.progress then
    Program.call (DkCall.progressAdd (perIterTraffic * BitVec.ofNat 64 pumpBatch))
  else pure ())
  (if p.verified then Program.call DkCall.verifiedAdd else pure ())
  (if p.errors then do
    let mismatch ← Program.call (DkCall.loadWord g.resultWord)
    if mismatch ≠ 0 then Program.call DkCall.errorsAdd else pure ()
  else pure ())

/-- The loop of the thread, for at most so many turns; false if there were that many. -/
def pumpLoop (p : PumpParams) (perIterTraffic : Word) (g : PumpGlobals) : Nat → GpuProgram Bool
  | 0 => pure false
  | fuel + 1 => do
    let stop ← Program.call DkCall.stopRequested
    if stop then pure true else
    let errorSeen ← Program.call DkCall.errorSeen
    if errorSeen then pure true else
    pumpCycle p perIterTraffic g
    pumpLoop p perIterTraffic g fuel

/-- Whether the setup succeeded, and the globals the thread leaves; nothing if the loop
takes more than `fuel` turns. -/
def pumpThreadEntry (p : PumpParams) (fuel : Nat) (g : PumpGlobals) :
    GpuProgram (Option (Bool × PumpGlobals)) := do
  let bufferAligned := pumpBufferAligned p.bufferBytes
  let (ok, g) ← pumpSetup p bufferAligned g
  if !ok then do
    let g ← pumpTeardown g
    Program.call DkCall.storeInitFailed
    Program.call DkCall.storeInitDone
    pure (some (false, g))
  else do
    Program.call DkCall.storeInitDone
    let ended ← pumpLoop p (bufferAligned * 2) g fuel
    if !ended then pure none
    else do
      let g ← pumpTeardown g
      pure (some (true, g))

end NxMemTest
