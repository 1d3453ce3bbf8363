import NxMemTest.GpuPumpLoop

/-! The pump thread from its entry to its end, whatever deko3d and `malloc` answer, what the
shader blob is and when the thread is asked to stop. -/

namespace NxMemTest
open Interaction Protocol

/-- What the thread has come to: the setup failed, or it succeeded and there were some
batches, until the end or until as many turns as were looked at. -/
inductive PumpEnd (p : PumpParams) (k : PumpBlocks) (size : Nat) (bytes : Word) (t : Told)
    (fuel : Nat) : Option (Bool × PumpGlobals) → Ledger → Prop
  | failed {g : PumpGlobals} {l : Ledger} (null : g.Null) (nothing : l.Nothing)
      (submitted : l.submitted = []) (words : l.words = [])
      (told : l.told = { t with initFailed := true, initDone := true }) :
      PumpEnd p k size bytes t fuel (some (false, g)) l
  | running {g : PumpGlobals} {outs : List (BitVec 32)} (length : outs.length = fuel) :
      PumpEnd p k size bytes t fuel none
        (g.pumping k size bytes (List.replicate outs.length g.batch).flatten
          (if p.errors then outs else [])
          (outs.foldl (p.tell (bytes * 2)) { t with initDone := true }))
  | ended {g : PumpGlobals} {outs : List (BitVec 32)} :
      PumpEnd p k size bytes t fuel (some (true, g.cleared))
        { g.pumping k size bytes (List.replicate outs.length g.batch).flatten
            (if p.errors then outs else [])
            (outs.foldl (p.tell (bytes * 2)) { t with initDone := true }) with
          live := [], heap := [], quit := true }

theorem admits_pumpThreadEntry {p : PumpParams} {k : PumpBlocks}
    (fit : k.Fit p.storageBase (pumpBufferAligned p.bufferBytes)) (fuel : Nat) {g : PumpGlobals}
    (null : g.Null) {t : Told} (undone : t.initDone = false) (unfailed : t.initFailed = false) :
    dkProtocol.Admits (Ledger.start t) (pumpThreadEntry p fuel g)
      (PumpEnd p k (DkshHeader.read p.gpuVerifyDksh).controlSz.toNat
        (pumpBufferAligned p.bufferBytes) t fuel) := by
  refine (admits_pumpSetup fit null).bind ?_
  rintro ⟨ok, g'⟩ l setUp
  cases ok with
  | false =>
    refine (admits_pumpTeardown setUp.live setUp.heap setUp.idle).bind ?_
    rintro _ _ ⟨rfl, rfl⟩
    have told := setUp.told
    refine .call_bind (decide_eq_true ⟨rfl, rfl, ?_, ?_⟩) fun _ => ?_
    · exact (congrArg Told.initFailed told).trans unfailed
    · exact (congrArg Told.initDone told).trans undone
    refine .call_bind (decide_eq_true ?_) fun _ => .of_pure (.failed g'.cleared_null
      ⟨rfl, rfl, setUp.idle⟩ setUp.submitted setUp.words ?_)
    · exact (congrArg Told.initDone told).trans undone
    · exact congrArg (fun t : Told => { t with initFailed := true, initDone := true }) told
  | true =>
    obtain ⟨complete, rfl⟩ := setUp.ready rfl
    refine .call_bind (decide_eq_true undone) fun _ => ?_
    refine (admits_pumpLoop complete fit p _ fuel [] [] { t with initDone := true }).bind ?_
    rintro ended _ ⟨outs, length, rfl⟩
    cases ended with
    | false => exact .of_pure (.running (length rfl))
    | true =>
      have heap : [(g'.shaderCtrl, (DkshHeader.read p.gpuVerifyDksh).controlSz.toNat)] =
          g'.blob (DkshHeader.read p.gpuVerifyDksh).controlSz.toNat :=
        (if_neg complete.shaderCtrl).symm
      refine (admits_pumpTeardown rfl heap rfl).bind ?_
      rintro _ _ ⟨rfl, rfl⟩
      exact .of_pure .ended

/-! ### From a start that was accepted -/

/-- `nxmt_gpu_pump_start` has taken the storage, which is whole pages below the top of
memory, and a buffer that a size of 32 bits can tell. -/
structure PumpParams.Accepted (p : PumpParams) (storageSize bufferSize : Word) : Prop where
  accepted : nxmtGpuPumpStart p.storageBase storageSize bufferSize true ≠ pure false
  bufferBytes : p.bufferBytes = pumpBufferAligned bufferSize
  aligned : p.storageBase.toNat % 4096 = 0
  small : bufferSize.toNat ≤ 2 ^ 32 - 4096
  top : p.storageBase.toNat + storageSize.toNat ≤ 2 ^ 64

theorem PumpParams.Accepted.storage {p : PumpParams} {storageSize bufferSize : Word}
    (h : p.Accepted storageSize bufferSize) :
    PumpStorage p.storageBase (pumpBufferAligned p.bufferBytes) ∧
      (pumpBufferAligned p.bufferBytes).toNat = roundedBytes bufferSize := by
  have accepted := h.accepted
  rw [ne_eq, nxmtGpuPumpStart_refuses] at accepted
  simp only [not_or] at accepted
  obtain ⟨⟨-, -, some_bytes⟩, enough⟩ := accepted
  obtain ⟨rounded, pos, -, below, pages⟩ := pumpBufferAligned_small some_bytes h.small
  have bytes : (pumpBufferAligned p.bufferBytes).toNat = roundedBytes bufferSize := by
    rw [h.bufferBytes, pumpBufferAligned_idem, rounded]
  have top := h.top
  refine ⟨⟨h.aligned, ?_, ?_, ?_, ?_⟩, bytes⟩ <;> rw [bytes]
  · exact pages
  · exact pos
  · exact below
  · omega

section
variable {p : PumpParams} {storageSize bufferSize : Word}
  (start : p.Accepted storageSize bufferSize)
include start

theorem PumpParams.Accepted.lists (g : PumpGlobals) :
    ∃ (cmdBuf src dst result : DkHandle) (n groups : BitVec 32),
      n.toNat = roundedBytes bufferSize ∧ 4096 * groups.toNat = n.toNat ∧
        [(g.verifyList, g.cmdbuf, g.verifies (pumpBufferAligned p.bufferBytes)),
          (g.copyList, g.cmdbuf, g.copies (pumpBufferAligned p.bufferBytes))] = [
        (g.verifyList, cmdBuf, [.bindShaders, .bindStorageBuffer 0 src n,
          .bindStorageBuffer 1 dst n, .bindStorageBuffer 2 result 4096, .dispatchCompute groups]),
        (g.copyList, cmdBuf, [.copyBuffer src dst n])] := by
  obtain ⟨storage, bytes⟩ := start.storage
  have width := toNat_cut storage.small
  have pages := storage.pages
  have groups := (pumpVerifyList_exact storage.small pages).2
  exact ⟨g.cmdbuf, g.src, g.dst, g.resultMem, _, _, width.trans bytes, by omega, rfl⟩

variable {fuel : Nat} {g : PumpGlobals} (null : g.Null) {told : Told}
  (undone : told.initDone = false) (unfailed : told.initFailed = false)
  {t : List (Event DkCall.Answer)} {r : Option (Bool × PumpGlobals)}
  (path : Program.Path (pumpThreadEntry p fuel g) t r)
include null undone unfailed path

/-- Every call the thread makes is in order, and when it has ended nothing is left. -/
theorem pumpThreadEntry_clean : ∃ l, dkProtocol.replay t (Ledger.start told) = some l ∧
    ∀ ok g', r = some (ok, g') → l.Nothing ∧ g'.Null := by
  obtain ⟨k, fit⟩ := start.storage.1.exists_fit
  obtain ⟨l, replayed, come⟩ := admits_pumpThreadEntry fit fuel null undone unfailed t r path
  refine ⟨l, replayed, fun ok g' e => ?_⟩
  cases come with
  | failed null nothing =>
    cases e
    exact ⟨nothing, null⟩
  | running => cases e
  | @ended g =>
    cases e
    exact ⟨⟨rfl, rfl, rfl⟩, g.cleared_null⟩

end

/-! A run with storage of 256 MiB for a buffer of 64 MiB, in which each handle is new and a
stop is requested after a batch that has found a difference. -/

/-- A header of 24 bytes, which is all there is to the control blob, and 8 bytes of code. -/
def smallDksh : List (BitVec 8) :=
  [0x44, 0x4b, 0x53, 0x48, 24, 0, 0, 0, 24, 0, 0, 0, 8, 0, 0, 0] ++ List.replicate 16 0

def mainPump : PumpParams where
  storageBase := 0x10000
  bufferBytes := pumpBufferAligned 0x4000000
  seed := 0
  progress := true
  errors := true
  verified := true
  gpuVerifyDksh := smallDksh

theorem mainPump_accepted : mainPump.Accepted 0x10000000 0x4000000 where
  accepted := by
    rw [ne_eq, nxmtGpuPumpStart_refuses]
    decide
  bufferBytes := rfl
  aligned := by decide
  small := by decide
  top := by decide

def nullGlobals : PumpGlobals := ⟨0, 0, 0, 0, 0, 0, 0, 0, 0, 0, 0, 0⟩

theorem nullGlobals_null : nullGlobals.Null := ⟨rfl, rfl, rfl, rfl, rfl, rfl, rfl, rfl, rfl⟩

/-- Answers that count what was asked for; there are eleven handles, pointers and lists
before the first turn of the loop. -/
def countingAnswer : (c : DkCall) → Nat → c.Answer × Nat
  | .create _, n | .malloc _, n | .finishList _, n => (n, n + 1)
  | .loadWord _, n => (1, n)
  | .ticksMs, n => (0, n)
  | .compareBytes .., n => (true, n)
  | .errorSeen, n => (false, n)
  | .stopRequested, n => (decide (12 < n), n + 1)
  | .destroy .., n | .addMemory .., n | .record .., n | .shaderInitialize .., n
  | .submitCommands .., n | .waitIdle _, n | .free _, n | .fillHeap .., n | .storeBytes .., n
  | .storePattern .., n | .storeWord .., n | .flushBlock .., n | .flushBytes .., n
  | .clearErrorSeen, n | .progressAdd _, n | .verifiedAdd, n | .errorsAdd, n | .storeInitFailed, n
  | .storeInitDone, n => ((), n)

def mainPumpRun : List (Event DkCall.Answer) :=
  Program.trace countingAnswer (pumpThreadEntry mainPump 2 nullGlobals) 1

theorem mainPumpRun_path :
    ∃ g, Program.Path (pumpThreadEntry mainPump 2 nullGlobals) mainPumpRun (some (true, g)) := by
  have ends : (Program.exec countingAnswer (pumpThreadEntry mainPump 2 nullGlobals) 1).1.map
      Prod.fst = some true := by decide +kernel
  obtain ⟨⟨_, g⟩, path, rfl⟩ := Program.path_of_exec_map countingAnswer ends
  exact ⟨g, path⟩

def quietTold : Told := ⟨false, false, 0, 0, 0⟩

theorem pumpThreadEntry_clean_main : ∃ l,
    dkProtocol.replay mainPumpRun (Ledger.start quietTold) = some l ∧ l.Nothing ∧
      l.submitted = List.replicate 8 9 ++ [10] := by
  obtain ⟨g, path⟩ := mainPumpRun_path
  obtain ⟨l, replayed, nothing⟩ := pumpThreadEntry_clean mainPump_accepted nullGlobals_null
    (rfl : quietTold.initDone = false) rfl path
  have submitted : (dkProtocol.replay mainPumpRun (Ledger.start quietTold)).map (·.submitted) =
      some (List.replicate 8 9 ++ [10]) := by decide +kernel
  rw [replayed] at submitted
  exact ⟨l, replayed, (nothing true g rfl).1, Option.some.inj submitted⟩

end NxMemTest
