import NxMemTest.GpuVerify
import NxMemTest.Interaction.Protocol

/-! What `nx/gpu_pump.c` and `nx/gpu_bench.c` ask of deko3d and of the C library, and a
ledger of it. deko3d itself is not modelled: it may answer anything, also a handle that is
in use. Handles and pointers are numbers, NULL is 0. -/

namespace NxMemTest
open Interaction

abbrev DkHandle := Nat

abbrev DkCmdList := Nat

inductive DkObject where
  | device
  | memBlock (device : DkHandle) (storage : Region) (code cpuCached : Bool)
  | cmdBuf (device : DkHandle)
  | queue (device : DkHandle)
  deriving DecidableEq

namespace DkObject

inductive Kind where
  | device
  | memBlock
  | cmdBuf
  | queue
  deriving DecidableEq

def kind : DkObject → Kind
  | device => .device
  | memBlock .. => .memBlock
  | cmdBuf _ => .cmdBuf
  | queue _ => .queue

def holds (bytes : Nat) : DkObject → Bool
  | memBlock _ storage _ _ => decide (bytes ≤ storage.size.toNat)
  | _ => false

def covers (p : Word) (bytes : Nat) : DkObject → Bool
  | memBlock _ storage _ _ => decide (storage.base.toNat ≤ p.toNat ∧
      p.toNat + bytes ≤ storage.base.toNat + storage.size.toNat)
  | _ => false

def holdsCode : DkObject → Bool
  | memBlock _ _ code _ => code
  | _ => false

def apart (r : Region) : DkObject → Bool
  | memBlock _ storage _ _ => decide (storage.base.toNat + storage.size.toNat ≤ r.base.toNat ∨
      r.base.toNat + r.size.toNat ≤ storage.base.toNat)
  | _ => true

end DkObject

inductive DkCommand where
  | copyBuffer (src dst : DkHandle) (bytes : BitVec 32)
  | bindShaders
  | bindStorageBuffer (id : Nat) (block : DkHandle) (bytes : BitVec 32)
  | dispatchCompute (numGroups : BitVec 32)
  deriving DecidableEq

inductive DkCall where
  | create (o : DkObject)
  | destroy (kind : DkObject.Kind) (h : DkHandle)
  | addMemory (cmdBuf mem : DkHandle) (bytes : BitVec 32)
  | record (cmdBuf : DkHandle) (command : DkCommand)
  | finishList (cmdBuf : DkHandle)
  | shaderInitialize (code : DkHandle) (control : Nat)
  | submitCommands (queue : DkHandle) (list : DkCmdList)
  | waitIdle (queue : DkHandle)
  | malloc (size : Nat)
  | free (p : Nat)
  /-- `memcpy` into memory from `malloc` -/
  | fillHeap (p size : Nat)
  /-- Storing bytes at `p`: `memcpy` or `memset`. -/
  | storeBytes (p : Word) (bytes : List (BitVec 8))
  | storePattern (p bytes seed : Word)
  | storeWord (p : Word) (value : BitVec 32)
  | loadWord (p : Word)
  /-- `dkMemBlockFlushCpuCache` from the start of the block. -/
  | flushBlock (block : DkHandle) (bytes : BitVec 32)
  /-- `armDCacheFlush` -/
  | flushBytes (p : Word) (bytes : Nat)
  /-- Whether the bytes at `p` and at `q` are the same: `memcmp`. -/
  | compareBytes (p q : Word) (bytes : Nat)
  | ticksMs
  | clearErrorSeen
  | errorSeen
  | stopRequested
  | progressAdd (delta : Word)
  | verifiedAdd
  | errorsAdd
  | storeInitFailed
  | storeInitDone

@[reducible] def DkCall.Answer : DkCall → Type
  | .create _ | .malloc _ | .finishList _ => Nat
  | .loadWord _ => BitVec 32
  | .ticksMs => Word
  | .compareBytes .. | .errorSeen | .stopRequested => Bool
  | .destroy .. | .addMemory .. | .record .. | .shaderInitialize .. | .submitCommands ..
  | .waitIdle _ | .free _ | .fillHeap .. | .storeBytes .. | .storePattern .. | .storeWord ..
  | .flushBlock .. | .flushBytes .. | .clearErrorSeen | .progressAdd _ | .verifiedAdd | .errorsAdd
  | .storeInitFailed | .storeInitDone => Unit

abbrev GpuProgram := Program DkCall DkCall.Answer

/-! ### The ledger -/

/-- What the thread tells others: `g_pump_init_done`, `g_pump_init_failed` and the three
counters. -/
structure Told where
  initDone : Bool
  initFailed : Bool
  progress : Word
  verified : Word
  errors : Word
  deriving DecidableEq

/-- What the calls so far, with their answers, have come to. -/
structure Ledger where
  /-- What was created and not destroyed, newest first. -/
  live : List (DkHandle × DkObject)
  /-- What `malloc` has given out and was not freed: pointer and size. -/
  heap : List (Nat × Nat)
  /-- Code block and control blob of the shader. -/
  shader : Option (DkHandle × Nat)
  /-- What each command buffer has recorded since its last list; nothing while it has no
  memory. -/
  recorded : DkHandle → Option (List DkCommand)
  /-- The finished lists, with their command buffers. -/
  lists : List (DkCmdList × DkHandle × List DkCommand)
  /-- Something was submitted that was not waited for. -/
  busy : Bool
  submitted : List DkCmdList
  /-- A stop request or an error has been seen. -/
  quit : Bool
  /-- The words that were loaded. -/
  words : List (BitVec 32)
  /-- What the comparisons have found. -/
  compared : List Bool
  told : Told

/-- A list binds the shader and the buffers of the verify shader before it dispatches, and no
invocation lies past the end of what is bound. -/
def bindsFirst (shader : Bool) (bound : Nat → Nat) : List DkCommand → Bool
  | [] => true
  | .copyBuffer .. :: rest => bindsFirst shader bound rest
  | .bindShaders :: rest => bindsFirst true bound rest
  | .bindStorageBuffer id _ bytes :: rest =>
    bindsFirst shader (Function.update bound id bytes.toNat) rest
  | .dispatchCompute numGroups :: rest =>
    shader && decide (4096 * numGroups.toNat ≤ bound 0) &&
      decide (4096 * numGroups.toNat ≤ bound 1) && decide (4 ≤ bound 2) &&
      bindsFirst shader bound rest

namespace Ledger

def start (told : Told) : Ledger :=
  ⟨[], [], none, fun _ => none, [], false, [], false, [], [], told⟩

def Has (l : Ledger) (h : DkHandle) (test : DkObject → Bool) : Prop :=
  ∃ r ∈ l.live, r.1 = h ∧ test r.2

instance (l : Ledger) (h : DkHandle) (test : DkObject → Bool) : Decidable (l.Has h test) :=
  inferInstanceAs (Decidable (∃ r ∈ l.live, r.1 = h ∧ test r.2))

def Maps (l : Ledger) (p : Word) (bytes : Nat) : Prop := ∃ r ∈ l.live, r.2.covers p bytes

instance (l : Ledger) (p : Word) (bytes : Nat) : Decidable (l.Maps p bytes) :=
  inferInstanceAs (Decidable (∃ r ∈ l.live, r.2.covers p bytes))

def Allocated (l : Ledger) (p size : Nat) : Prop := ∃ r ∈ l.heap, r.1 = p ∧ size ≤ r.2

instance (l : Ledger) (p size : Nat) : Decidable (l.Allocated p size) :=
  inferInstanceAs (Decidable (∃ r ∈ l.heap, r.1 = p ∧ size ≤ r.2))

def ShaderReady (l : Ledger) : Prop :=
  ∃ s ∈ l.shader, l.Has s.1 DkObject.holdsCode ∧ l.Allocated s.2 0

instance (l : Ledger) : Decidable l.ShaderReady :=
  inferInstanceAs (Decidable (∃ s ∈ l.shader, l.Has s.1 DkObject.holdsCode ∧ l.Allocated s.2 0))

def Fits (l : Ledger) : DkCommand → Prop
  | .copyBuffer src dst bytes =>
    l.Has src (DkObject.holds bytes.toNat) ∧ l.Has dst (DkObject.holds bytes.toNat)
  | .bindShaders => l.ShaderReady
  | .bindStorageBuffer _ block bytes => l.Has block (DkObject.holds bytes.toNat)
  | .dispatchCompute _ => True

instance (l : Ledger) : DecidablePred l.Fits
  | .copyBuffer src dst bytes => inferInstanceAs (Decidable
      (l.Has src (DkObject.holds bytes.toNat) ∧ l.Has dst (DkObject.holds bytes.toNat)))
  | .bindShaders => inferInstanceAs (Decidable l.ShaderReady)
  | .bindStorageBuffer _ block bytes =>
    inferInstanceAs (Decidable (l.Has block (DkObject.holds bytes.toNat)))
  | .dispatchCompute _ => inferInstanceAs (Decidable True)

def Runnable (l : Ledger) (list : DkCmdList) : Prop :=
  ∃ r ∈ l.lists, r.1 = list ∧ l.Has r.2.1 (·.kind = .cmdBuf) ∧ (∀ c ∈ r.2.2, l.Fits c) ∧
    bindsFirst false (fun _ => 0) r.2.2

instance (l : Ledger) (list : DkCmdList) : Decidable (l.Runnable list) :=
  inferInstanceAs (Decidable (∃ r ∈ l.lists, r.1 = list ∧ l.Has r.2.1 (·.kind = .cmdBuf) ∧
    (∀ c ∈ r.2.2, l.Fits c) ∧ bindsFirst false (fun _ => 0) r.2.2))

/-- A memory block is made of whole pages that no other one has, everything else of a live
device. -/
def Creatable (l : Ledger) : DkObject → Prop
  | .device => True
  | .memBlock device storage _ _ => l.Has device (· = .device) ∧
      storage.base.toNat % 4096 = 0 ∧ storage.size.toNat % 4096 = 0 ∧ 0 < storage.size.toNat ∧
      storage.base.toNat + storage.size.toNat ≤ 2 ^ 64 ∧ ∀ r ∈ l.live, r.2.apart storage
  | .cmdBuf device => l.Has device (· = .device)
  | .queue device => l.Has device (· = .device)

instance (l : Ledger) : DecidablePred l.Creatable
  | .device => inferInstanceAs (Decidable True)
  | .memBlock device storage _ _ => inferInstanceAs (Decidable (l.Has device (· = .device) ∧
      storage.base.toNat % 4096 = 0 ∧ storage.size.toNat % 4096 = 0 ∧ 0 < storage.size.toNat ∧
      storage.base.toNat + storage.size.toNat ≤ 2 ^ 64 ∧ ∀ r ∈ l.live, r.2.apart storage))
  | .cmdBuf device => inferInstanceAs (Decidable (l.Has device (· = .device)))
  | .queue device => inferInstanceAs (Decidable (l.Has device (· = .device)))

/-- Objects go newest first, and only while nothing is submitted. -/
def Newest (l : Ledger) (kind : DkObject.Kind) (h : DkHandle) : Prop :=
  l.busy = false ∧ ∃ r ∈ l.live.head?, r.1 = h ∧ r.2.kind = kind

instance (l : Ledger) (kind : DkObject.Kind) (h : DkHandle) : Decidable (l.Newest kind h) :=
  inferInstanceAs (Decidable (l.busy = false ∧ ∃ r ∈ l.live.head?, r.1 = h ∧ r.2.kind = kind))

/-- When a call is in order. Memory is touched only in a live block and while nothing is
submitted, nothing is submitted once a stop request or an error has been seen, and the flags
are raised once. -/
def allows : DkCall → Ledger → Bool
  | .create o, l => decide (l.Creatable o)
  | .destroy kind h, l => decide (l.Newest kind h)
  | .addMemory cmdBuf mem bytes, l =>
    decide (l.Has cmdBuf (·.kind = .cmdBuf) ∧ l.Has mem (DkObject.holds bytes.toNat))
  | .record cmdBuf command, l =>
    decide (l.Has cmdBuf (·.kind = .cmdBuf) ∧ l.recorded cmdBuf ≠ none ∧ l.Fits command)
  | .finishList cmdBuf, l => decide (l.Has cmdBuf (·.kind = .cmdBuf) ∧ l.recorded cmdBuf ≠ none)
  | .shaderInitialize code control, l =>
    decide (l.Has code DkObject.holdsCode ∧ l.Allocated control 0)
  | .submitCommands queue list, l =>
    decide (l.quit = false ∧ l.Has queue (·.kind = .queue) ∧ l.Runnable list)
  | .waitIdle queue, l => decide (l.Has queue (·.kind = .queue))
  | .free p, l => decide (l.busy = false ∧ l.Allocated p 0)
  | .fillHeap p size, l => decide (l.Allocated p size)
  | .storeBytes p bytes, l => decide (l.busy = false ∧ l.Maps p bytes.length)
  | .storePattern p bytes _, l => decide (l.busy = false ∧ l.Maps p bytes.toNat)
  | .storeWord p _, l | .loadWord p, l => decide (l.busy = false ∧ l.Maps p 4)
  | .compareBytes p q bytes, l => decide (l.busy = false ∧ l.Maps p bytes ∧ l.Maps q bytes)
  | .flushBlock block bytes, l => decide (l.Has block (DkObject.holds bytes.toNat))
  | .flushBytes p bytes, l => decide (l.Maps p bytes)
  | .storeInitFailed, l =>
    decide (l.live = [] ∧ l.heap = [] ∧ l.told.initFailed = false ∧ l.told.initDone = false)
  | .storeInitDone, l => decide (l.told.initDone = false)
  | .malloc _, _ | .ticksMs, _ | .clearErrorSeen, _ | .errorSeen, _ | .stopRequested, _
  | .progressAdd _, _ | .verifiedAdd, _ | .errorsAdd, _ => true

def create (l : Ledger) (h : DkHandle) (o : DkObject) : Ledger :=
  if h = 0 then l else
    { l with
      live := (h, o) :: l.live
      recorded := if o.kind = .cmdBuf then Function.update l.recorded h none else l.recorded }

def after : (c : DkCall) → c.Answer → Ledger → Ledger
  | .create o, h, l => l.create h o
  | .destroy .., _, l => { l with live := l.live.tail }
  | .addMemory cmdBuf .., _, l =>
    { l with recorded := Function.update l.recorded cmdBuf (some []) }
  | .record cmdBuf command, _, l =>
    { l with
      recorded := Function.update l.recorded cmdBuf
        ((l.recorded cmdBuf).map fun commands => commands ++ [command]) }
  | .finishList cmdBuf, list, l =>
    { l with
      lists := (list, cmdBuf, (l.recorded cmdBuf).getD []) :: l.lists
      recorded := Function.update l.recorded cmdBuf (some []) }
  | .shaderInitialize code control, _, l => { l with shader := some (code, control) }
  | .submitCommands _ list, _, l => { l with busy := true, submitted := l.submitted ++ [list] }
  | .waitIdle _, _, l => { l with busy := false }
  | .malloc size, p, l => if p = 0 then l else { l with heap := (p, size) :: l.heap }
  | .free p, _, l => { l with heap := l.heap.filter fun r => r.1 ≠ p }
  | .loadWord _, word, l => { l with words := l.words ++ [word] }
  | .compareBytes .., same, l => { l with compared := l.compared ++ [same] }
  | .errorSeen, seen, l => { l with quit := l.quit || seen }
  | .stopRequested, stop, l => { l with quit := l.quit || stop }
  | .progressAdd delta, _, l =>
    { l with told := { l.told with progress := l.told.progress + delta } }
  | .verifiedAdd, _, l => { l with told := { l.told with verified := l.told.verified + 1 } }
  | .errorsAdd, _, l => { l with told := { l.told with errors := l.told.errors + 1 } }
  | .storeInitFailed, _, l => { l with told := { l.told with initFailed := true } }
  | .storeInitDone, _, l => { l with told := { l.told with initDone := true } }
  | .fillHeap .., _, l | .storeBytes .., _, l | .storePattern .., _, l | .storeWord .., _, l
  | .flushBlock .., _, l | .flushBytes .., _, l | .ticksMs, _, l | .clearErrorSeen, _, l => l

/-- Nothing is left, and nothing is submitted that was not waited for. -/
structure Nothing (l : Ledger) : Prop where
  live : l.live = []
  heap : l.heap = []
  busy : l.busy = false

end Ledger

def dkProtocol : Protocol DkCall DkCall.Answer Ledger := ⟨Ledger.allows, Ledger.after⟩

end NxMemTest
