import NxMemTest.GpuStorage
import NxMemTest.Interaction.Pool
import Mathlib.Tactic.IntervalCases

/-! The verification of the pump on the GPU: the shader `gpu_verify.glsl`, the
dispatch that `pump_setup` records for it, and its invocations in any order. -/

namespace NxMemTest
open Interaction Program

/-! ### The shader -/

structure Uvec4 where
  x : BitVec 32
  y : BitVec 32
  z : BitVec 32
  w : BitVec 32
  deriving DecidableEq, Repr

/-- The `uint` at byte `k`, low byte first. -/
def uintAt (bytes : Nat → BitVec 8) (k : Nat) : BitVec 32 :=
  bytes (k + 3) ++ bytes (k + 2) ++ bytes (k + 1) ++ bytes k

def uvec4At (bytes : Nat → BitVec 8) (idx : Nat) : Uvec4 :=
  ⟨uintAt bytes (16 * idx), uintAt bytes (16 * idx + 4), uintAt bytes (16 * idx + 8),
    uintAt bytes (16 * idx + 12)⟩

inductive ShaderCall where
  | src (idx : BitVec 32)
  | dst (idx : BitVec 32)
  | atomicOr (value : BitVec 32)
  deriving DecidableEq

@[reducible] def ShaderCall.Answer : ShaderCall → Type
  | .src _ | .dst _ => Uvec4
  | .atomicOr _ => Unit

abbrev Shader := Program ShaderCall ShaderCall.Answer

def reducedDiff (s d : Uvec4) : BitVec 32 :=
  let diff : Uvec4 := ⟨s.x ^^^ d.x, s.y ^^^ d.y, s.z ^^^ d.z, s.w ^^^ d.w⟩
  diff.x ||| diff.y ||| diff.z ||| diff.w

/-- `main` of the shader, given `gl_GlobalInvocationID.x`. -/
def gpuVerifyMain (idx : BitVec 32) : Shader Unit := do
  let s ← Program.call (ShaderCall.src idx)
  let d ← Program.call (ShaderCall.dst idx)
  let reduced := reducedDiff s d
  if reduced ≠ 0 then Program.call (ShaderCall.atomicOr 1) else pure ()

/-! ### The dispatch -/

def pumpLocalX : BitVec 32 := 256
def pumpBytesPerInvocation : Word := 16

/-- The verify list that `pump_setup` records: how many bytes of the two buffers are
bound, and how many workgroups are dispatched. -/
structure VerifyList where
  bindBytes : BitVec 32
  numGroups : BitVec 32
  deriving DecidableEq, Repr

def pumpVerifyList (bufferAligned : Word) : VerifyList :=
  let invocations : BitVec 32 := (bufferAligned / pumpBytesPerInvocation).setWidth 32
  ⟨bufferAligned.setWidth 32, invocations / pumpLocalX⟩

abbrev Invocation (list : VerifyList) := Fin list.numGroups.toNat × Fin pumpLocalX.toNat

/-- `gl_GlobalInvocationID.x` -/
def globalInvocationID {list : VerifyList} (i : Invocation list) : BitVec 32 :=
  BitVec.ofNat 32 i.1 * pumpLocalX + BitVec.ofNat 32 i.2

def shaderAnswer (src dst : Nat → BitVec 8) : (c : ShaderCall) → ShaderCall.Answer c
  | .src idx => uvec4At src idx.toNat
  | .dst idx => uvec4At dst idx.toNat
  | .atomicOr _ => ()

def gpuServe (src dst : Nat → BitVec 8) (c : ShaderCall) (mismatch : BitVec 32) :
    ShaderCall.Answer c × BitVec 32 :=
  (shaderAnswer src dst c,
    match c with
    | .atomicOr value => mismatch ||| value
    | _ => mismatch)

/-- All invocations of the dispatch, before the first step; the result word is reset. -/
def dispatched (list : VerifyList) :
    Pool (Invocation list) ShaderCall ShaderCall.Answer Unit (BitVec 32) :=
  ⟨fun i => gpuVerifyMain (globalInvocationID i), 0⟩

/-! ### One vector -/

theorem uintAt_byte (bytes : Nat → BitVec 8) (k : Nat) {j : Nat} (hj : j < 4) :
    (uintAt bytes k).extractLsb' (8 * j) 8 = bytes (k + j) := by
  apply BitVec.eq_of_getLsbD_eq
  intro i hi
  interval_cases j <;>
    simp only [uintAt, BitVec.getLsbD_extractLsb', BitVec.getLsbD_append] <;> grind

theorem uintAt_inj (src dst : Nat → BitVec 8) (k : Nat) :
    uintAt src k = uintAt dst k ↔ ∀ j < 4, src (k + j) = dst (k + j) := by
  constructor
  · intro same j hj
    rw [← uintAt_byte src k hj, ← uintAt_byte dst k hj, same]
  · intro same
    have s0 := same 0 (by decide)
    have s1 := same 1 (by decide)
    have s2 := same 2 (by decide)
    have s3 := same 3 (by decide)
    rw [Nat.add_zero] at s0
    rw [uintAt, uintAt, s0, s1, s2, s3]

theorem reducedDiff_eq_zero (src dst : Nat → BitVec 8) (idx : Nat) :
    reducedDiff (uvec4At src idx) (uvec4At dst idx) = 0 ↔
      ∀ j < 16, src (16 * idx + j) = dst (16 * idx + j) := by
  have zero : reducedDiff (uvec4At src idx) (uvec4At dst idx) = 0 ↔
      ∀ c < 4, uintAt src (16 * idx + 4 * c) = uintAt dst (16 * idx + 4 * c) := by
    have parts : ∀ p : Nat → Prop, (∀ c < 4, p c) ↔ ((p 0 ∧ p 1) ∧ p 2) ∧ p 3 := by
      intro p
      constructor
      · intro all
        exact ⟨⟨⟨all 0 (by decide), all 1 (by decide)⟩, all 2 (by decide)⟩, all 3 (by decide)⟩
      · rintro ⟨⟨⟨p0, p1⟩, p2⟩, p3⟩ c hc
        interval_cases c <;> assumption
    rw [parts, reducedDiff]
    simp only [BitVec.ofNat_eq_ofNat, BitVec.or_eq_zero_iff, BitVec.xor_eq_zero_iff, uvec4At,
      Nat.mul_zero, Nat.add_zero, Nat.mul_one]
  rw [zero]
  simp only [uintAt_inj]
  constructor
  · intro all j hj
    have byte := all (j / 4) (by omega) (j % 4) (by omega)
    have place : 16 * idx + 4 * (j / 4) + j % 4 = 16 * idx + j := by omega
    rwa [place] at byte
  · intro all c hc j hj
    rw [Nat.add_assoc]
    exact all (4 * c + j) (by omega)

/-! ### The whole buffer -/

theorem pumpBufferAligned_small {bufferSize : Word} (pos : bufferSize ≠ 0)
    (small : bufferSize.toNat ≤ 2 ^ 32 - 4096) :
    (pumpBufferAligned bufferSize).toNat = roundedBytes bufferSize ∧
      0 < roundedBytes bufferSize ∧ bufferSize.toNat ≤ roundedBytes bufferSize ∧
      roundedBytes bufferSize < 2 ^ 32 ∧ roundedBytes bufferSize % 4096 = 0 := by
  have below : roundedBytes bufferSize < 2 ^ 32 := by
    rw [roundedBytes]
    omega
  obtain ⟨aligned, rounded⟩ := pumpBufferAligned_fits pos (by omega)
  exact ⟨aligned, rounded, le_roundedBytes bufferSize, below, Nat.mul_mod_left _ _⟩

theorem pumpVerifyList_exact {bufferAligned : Word} (small : bufferAligned.toNat < 2 ^ 32)
    (pages : bufferAligned.toNat % 4096 = 0) :
    (pumpVerifyList bufferAligned).bindBytes.toNat = bufferAligned.toNat ∧
      (pumpVerifyList bufferAligned).numGroups.toNat * 256 = bufferAligned.toNat / 16 := by
  have sixteen : pumpBytesPerInvocation.toNat = 16 := rfl
  have local_x : pumpLocalX.toNat = 256 := rfl
  have invocations : ((bufferAligned / pumpBytesPerInvocation).setWidth 32).toNat =
      bufferAligned.toNat / 16 := by
    rw [BitVec.toNat_setWidth, BitVec.toNat_udiv, sixteen, Nat.mod_eq_of_lt (by omega)]
  simp only [pumpVerifyList, BitVec.toNat_udiv, invocations, local_x]
  rw [BitVec.toNat_setWidth, Nat.mod_eq_of_lt small]
  omega

theorem globalId_toNat {group place : Nat} (fits : group * 256 + place < 2 ^ 32) :
    (BitVec.ofNat 32 group * pumpLocalX + BitVec.ofNat 32 place).toNat = group * 256 + place := by
  have local_x : pumpLocalX.toNat = 256 := rfl
  rw [BitVec.toNat_add, BitVec.toNat_mul, BitVec.toNat_ofNat, BitVec.toNat_ofNat, local_x]
  omega

section
variable {list : VerifyList} (fits : list.numGroups.toNat * 256 ≤ 2 ^ 32)
include fits

theorem globalInvocationID_toNat (i : Invocation list) :
    (globalInvocationID i).toNat = i.1 * 256 + i.2 := by
  have group := i.1.isLt
  have place : i.2.val < 256 := i.2.isLt
  exact globalId_toNat (by omega)

theorem existsUnique_invocation {v : Nat} (hv : v < list.numGroups.toNat * 256) :
    ∃! i : Invocation list, (globalInvocationID i).toNat = v := by
  have place : v % 256 < pumpLocalX.toNat := Nat.mod_lt v (by decide)
  refine ⟨(⟨v / 256, by omega⟩, ⟨v % 256, place⟩), ?_, fun j hj => ?_⟩
  · dsimp only
    rw [globalInvocationID_toNat fits]
    exact Nat.div_add_mod' v 256
  · change (globalInvocationID j).toNat = v at hj
    rw [globalInvocationID_toNat fits] at hj
    have below : j.2.val < 256 := j.2.isLt
    refine Prod.ext (Fin.ext ?_) (Fin.ext ?_)
    · dsimp only
      omega
    · dsimp only
      omega

end

def ShaderCall.Inside (bindBytes : BitVec 32) : ShaderCall → Prop
  | .src idx | .dst idx => 16 * idx.toNat + 16 ≤ bindBytes.toNat
  | .atomicOr _ => True

def Compares (v : Nat) (t : List (Event ShaderCall.Answer)) : Prop :=
  (∃ s, ⟨.src (BitVec.ofNat 32 v), s⟩ ∈ t) ∧ ∃ d, ⟨.dst (BitVec.ofNat 32 v), d⟩ ∈ t

theorem gpuVerifyMain_inside {bindBytes idx : BitVec 32}
    (inside : 16 * idx.toNat + 16 ≤ bindBytes.toNat) :
    (gpuVerifyMain idx).Uses (ShaderCall.Inside bindBytes) := by
  refine uses_bind (uses_call.2 inside) fun s => uses_bind (uses_call.2 inside) fun d => ?_
  dsimp only
  split
  · exact uses_call.2 trivial
  · exact uses_pure _

theorem path_gpuVerifyMain {idx : BitVec 32} {t : List (Event ShaderCall.Answer)} {a : Unit}
    (h : Path (gpuVerifyMain idx) t a) (v : Nat) (hv : v < 2 ^ 32) :
    Compares v t ↔ idx.toNat = v := by
  obtain ⟨s, u, rfl, hu⟩ := path_call_bind.1 h
  obtain ⟨d, w, rfl, hw⟩ := path_call_bind.1 hu
  have word : (BitVec.ofNat 32 v).toNat = v := by rw [BitVec.toNat_ofNat, Nat.mod_eq_of_lt hv]
  have rest : ∀ e ∈ w, ∃ value, e.1 = .atomicOr value := by
    dsimp only at hw
    split at hw
    · rw [path_call] at hw
      simp [hw]
    · simp [(path_pure.1 hw).1]
  constructor
  · rintro ⟨⟨x, loaded⟩, -⟩
    rcases List.mem_cons.1 loaded with same | loaded
    · rw [← word]
      have call := congrArg Sigma.fst same
      injection call with eq
      rw [eq]
    · rcases List.mem_cons.1 loaded with same | loaded
      · cases congrArg Sigma.fst same
      · obtain ⟨value, call⟩ := rest _ loaded
        cases call
  · intro eq
    have own : BitVec.ofNat 32 v = idx := BitVec.eq_of_toNat_eq (word.trans eq.symm)
    rw [Compares, own]
    exact ⟨⟨s, List.mem_cons_self⟩, d, List.mem_cons_of_mem _ List.mem_cons_self⟩

def ShaderCall.Flags : ShaderCall → Prop
  | .atomicOr value => value ≠ 0
  | _ => False

theorem gpuServe_flag (src dst : Nat → BitVec 8) (c : ShaderCall) (mismatch : BitVec 32) :
    (gpuServe src dst c mismatch).2 ≠ 0 ↔ mismatch ≠ 0 ∨ c.Flags := by
  cases c with
  | src | dst => exact (or_iff_left id).symm
  | atomicOr value =>
    have zero : mismatch ||| value = 0 ↔ mismatch = 0 ∧ value = 0 := BitVec.or_eq_zero_iff
    rw [gpuServe, ne_eq, zero, not_and_or]
    rfl

theorem gpuVerifyMain_raised {ι : Type} (src dst : Nat → BitVec 8) (i : ι) (idx : BitVec 32) :
    Pool.Raised (fun _ => shaderAnswer src dst) (fun _ c => c.Flags) i (gpuVerifyMain idx) ↔
      reducedDiff (uvec4At src idx.toNat) (uvec4At dst idx.toNat) ≠ 0 := by
  change False ∨ False ∨ Pool.Raised _ _ i (if reducedDiff (uvec4At src idx.toNat)
    (uvec4At dst idx.toNat) ≠ 0 then Program.call (ShaderCall.atomicOr 1)
      else pure () : Shader Unit) ↔ _
  rw [false_or, false_or]
  split
  · rename_i differs
    exact iff_of_true (.inl (by decide : (1 : BitVec 32) ≠ 0)) differs
  · rename_i same
    exact iff_of_false id same

/-! ### Every order of the invocations -/

section
variable {list : VerifyList} (src dst : Nat → BitVec 8) (schedule : List (Invocation list))

theorem dispatched_inside
    (inside : ∀ i : Invocation list, 16 * (globalInvocationID i).toNat + 16 ≤ list.bindBytes.toNat) :
    ∀ q ∈ Pool.asked (fun _ => gpuServe src dst) schedule (dispatched list),
      q.2.1.Inside list.bindBytes :=
  (Pool.runSchedule_inv (fun _ => gpuServe src dst) (fun _ c => c.Inside list.bindBytes)
    (fun _ => True) (fun _ _ _ _ _ => trivial) schedule (dispatched list)
    (fun i => gpuVerifyMain_inside (inside i)) trivial).2.2

theorem dispatched_state
    (fin : (Pool.runSchedule (fun _ => gpuServe src dst) schedule (dispatched list)).Finished) :
    (Pool.runSchedule (fun _ => gpuServe src dst) schedule (dispatched list)).state ≠ 0 ↔
      ∃ i : Invocation list, ∃ j < 16, src (16 * (globalInvocationID i).toNat + j) ≠
        dst (16 * (globalInvocationID i).toNat + j) := by
  have flag := Pool.finished_raised (fun _ => gpuServe src dst)
    (fun _ => shaderAnswer src dst) (fun _ c => c.Flags) (· ≠ 0) (fun _ _ _ => rfl)
    (fun _ c m => gpuServe_flag src dst c m) schedule (dispatched list) fin
  refine flag.trans ((or_iff_right fun raised => raised rfl).trans ?_)
  simp only [dispatched, gpuVerifyMain_raised, ne_eq, reducedDiff_eq_zero, not_forall, exists_prop]

variable {src dst schedule}

theorem dispatched_compares
    (fin : (Pool.runSchedule (fun _ => gpuServe src dst) schedule (dispatched list)).Finished)
    (i : Invocation list) {v : Nat} (hv : v < 2 ^ 32) :
    Compares v (Pool.eventsOf i (Pool.asked (fun _ => gpuServe src dst) schedule
      (dispatched list))) ↔ (globalInvocationID i).toNat = v := by
  obtain ⟨a, ended⟩ := fin i
  exact path_gpuVerifyMain (Pool.path_of_done (fun _ => gpuServe src dst) ended) v hv

end

/-- In whatever order the invocations run, the result word tells whether the buffers
differ in some byte; every vector is compared once and nothing outside is read. -/
theorem gpuVerify_exact (bufferSize : Word) (pos : bufferSize ≠ 0)
    (small : bufferSize.toNat ≤ 2 ^ 32 - 4096) (src dst : Nat → BitVec 8) :
    let bufferAligned := pumpBufferAligned (pumpBufferAligned bufferSize)
    let list := pumpVerifyList bufferAligned
    let run := fun schedule => Pool.runSchedule (fun _ => gpuServe src dst) schedule (dispatched list)
    let asked := fun schedule => Pool.asked (fun _ => gpuServe src dst) schedule (dispatched list)
    bufferSize.toNat ≤ bufferAligned.toNat ∧ list.bindBytes.toNat = bufferAligned.toNat ∧
      (∃ schedule, (run schedule).Finished) ∧
      ∀ schedule, (∀ q ∈ asked schedule, q.2.1.Inside list.bindBytes) ∧
        ((run schedule).Finished →
          ((run schedule).state ≠ 0 ↔ ∃ k < bufferAligned.toNat, src k ≠ dst k) ∧
          ∀ v < bufferAligned.toNat / 16,
            ∃! i, Compares v (Pool.eventsOf i (asked schedule))) := by
  intro bufferAligned list run asked
  obtain ⟨rounded, _, large, below, pages⟩ := pumpBufferAligned_small pos small
  have bytes : bufferAligned.toNat = roundedBytes bufferSize :=
    (congrArg BitVec.toNat (pumpBufferAligned_idem bufferSize)).trans rounded
  obtain ⟨bind, groups⟩ : list.bindBytes.toNat = bufferAligned.toNat ∧
      list.numGroups.toNat * 256 = bufferAligned.toNat / 16 :=
    pumpVerifyList_exact (by omega) (by omega)
  have fits : list.numGroups.toNat * 256 ≤ 2 ^ 32 := by omega
  have inside : ∀ i : Invocation list,
      16 * (globalInvocationID i).toNat + 16 ≤ list.bindBytes.toNat := by
    intro i
    have group := i.1.isLt
    have place : i.2.val < 256 := i.2.isLt
    rw [globalInvocationID_toNat fits, bind]
    omega
  have ends := Pool.exists_finished (fun _ => gpuServe src dst)
    (Finset.univ : Finset (Invocation list)).toList
    (fun i => Finset.mem_toList.2 (Finset.mem_univ i)) (dispatched list)
  refine ⟨by omega, bind, ends, fun schedule => ⟨dispatched_inside src dst schedule inside,
    fun fin => ⟨(dispatched_state src dst schedule fin).trans ?_, fun v hv => ?_⟩⟩⟩
  · constructor
    · rintro ⟨i, j, hj, differs⟩
      have room := inside i
      exact ⟨_, by omega, differs⟩
    · rintro ⟨k, hk, differs⟩
      obtain ⟨i, own, -⟩ := existsUnique_invocation fits (show k / 16 < _ by omega)
      refine ⟨i, k % 16, Nat.mod_lt k (by decide), ?_⟩
      rwa [own, Nat.div_add_mod]
  · have same : ∀ i, Compares v (Pool.eventsOf i (asked schedule)) ↔
        (globalInvocationID i).toNat = v := fun i => dispatched_compares fin i (by omega)
    simp only [same]
    exact existsUnique_invocation fits (by omega)

/-- Only the last of 4096 bytes differs. -/
theorem gpuVerify_exact_lastByte :
    let run := fun schedule => Pool.runSchedule
      (fun _ => gpuServe (fun _ => 0) fun k => if k = 4095 then 1 else 0) schedule
      (dispatched (pumpVerifyList (pumpBufferAligned (pumpBufferAligned 1))))
    ∃ schedule, (run schedule).Finished ∧ (run schedule).state ≠ 0 := by
  have verified := gpuVerify_exact 1 (by decide) (by decide) (fun _ => 0)
    fun k => if k = 4095 then 1 else 0
  obtain ⟨schedule, fin⟩ := verified.2.2.1
  exact ⟨schedule, fin, ((verified.2.2.2 schedule).2 fin).1.2 ⟨4095, by decide, by decide⟩⟩

end NxMemTest
