import NxMemTest.Faults
import NxMemTest.Reference
import NxMemTest.Workers
import Mathlib.Data.Multiset.Bind

/-! One pass shared out to any number of workers finds what a single worker finds. -/

namespace NxMemTest
open Interaction Program

def NxmtRunConfig.forWorker (config : NxmtRunConfig) (W : BitVec 32) (i : Nat) : NxmtRunConfig :=
  { config with workerId := BitVec.ofNat 32 i, workerCount := W }

theorem faultCalls_pairs (f : Fault) (config : NxmtRunConfig) (W : BitVec 32) (i : Nat)
    (phases : List NxmtPhase) (ws : List Nat) :
    (faultCalls f (config.forWorker W i) phases ws).map (fun c => (c.offset, c.diff)) =
      (faultCalls f config phases ws).map fun c => (c.offset, c.diff) := by
  simp only [faultCalls, wrongWords, List.map_flatMap, List.map_map]
  rfl

def blockWords (n W i : Nat) : List Nat :=
  List.range' (Partition.start n W i) (Partition.size n W i)

def workersCalls (f : Fault) (config : NxmtRunConfig) (n : Nat) (W : BitVec 32) (k : Nat) :
    List RecordCall :=
  (List.range k).flatMap fun i => faultCalls f (config.forWorker W i)
    (nxmtPhasesForMode config.mode) (blockWords n W.toNat i)

theorem workersCalls_succ (f : Fault) (config : NxmtRunConfig) (n : Nat) (W : BitVec 32) (k : Nat) :
    workersCalls f config n W (k + 1) = workersCalls f config n W k ++
      faultCalls f (config.forWorker W k) (nxmtPhasesForMode config.mode)
        (blockWords n W.toNat k) := by
  rw [workersCalls, List.range_succ, List.flatMap_append, List.flatMap_singleton, ← workersCalls]

theorem flatMap_comm {α β γ : Type} (l : List α) (l' : List β) (f : α → β → List γ) :
    (l.flatMap fun a => l'.flatMap fun b => f a b).Perm
      (l'.flatMap fun b => l.flatMap fun a => f a b) := by
  have swap := Multiset.bind_bind (l : Multiset α) (l' : Multiset β)
    (f := fun a b => (f a b : Multiset γ))
  simpa only [Multiset.coe_bind, Multiset.coe_eq_coe] using swap

theorem workersCalls_perm (f : Fault) (config : NxmtRunConfig) (n : Nat) {W : BitVec 32}
    (pos : 0 < W.toNat) :
    ((workersCalls f config n W W.toNat).map fun c => (c.offset, c.diff)).Perm
      ((faultCalls f config (nxmtPhasesForMode config.mode) (List.range n)).map
        fun c => (c.offset, c.diff)) := by
  have whole : (List.range W.toNat).flatMap (blockWords n W.toNat) = List.range n := by
    refine (Partition.flatMap_blocks n W.toNat W.toNat).trans ?_
    rw [Partition.start_self pos]
  have phase : ∀ phase, (List.range W.toNat).flatMap (fun i => wrongWords config phase
      (blockWords n W.toNat i) fun w => f phase w (expectedWord config.seed phase config.pass w)) =
      wrongWords config phase (List.range n)
        fun w => f phase w (expectedWord config.seed phase config.pass w) := by
    intro phase
    rw [← whole]
    simp only [wrongWords, List.filter_flatMap, List.map_flatMap]
  have same : (workersCalls f config n W W.toNat).map (fun c => (c.offset, c.diff)) =
      ((List.range W.toNat).flatMap fun i => faultCalls f config (nxmtPhasesForMode config.mode)
        (blockWords n W.toNat i)).map fun c => (c.offset, c.diff) := by
    simp only [workersCalls, List.map_flatMap, faultCalls_pairs]
  rw [same]
  refine List.Perm.map _ ((flatMap_comm _ _ _).trans ?_)
  simp only [phase]
  exact .rfl

section
variable {config : NxmtRunConfig} {W : BitVec 32}

theorem forWorker_workerId {i : Nat} (hi : i < W.toNat) :
    (config.forWorker W i).workerId.toNat = i := by
  have bound := W.isLt
  rw [NxmtRunConfig.forWorker, BitVec.toNat_ofNat, Nat.mod_eq_of_lt (by omega)]

theorem forWorker_worker {i : Nat} (hi : i < W.toNat) :
    (config.forWorker W i).workerId < (config.forWorker W i).workerCount := by
  rw [BitVec.lt_def, forWorker_workerId hi]
  exact hi

theorem forWorker_slice (arena : NxmtArena) (config : NxmtRunConfig) {i : Nat} (hi : i < W.toNat) :
    sliceStart arena (config.forWorker W i) = Partition.start arena.words.toNat W.toNat i ∧
      sliceCount arena (config.forWorker W i) = Partition.size arena.words.toNat W.toNat i := by
  have worker : (config.forWorker W i).workerId < W := forWorker_worker hi
  have some : W ≠ 0 := by
    rintro rfl
    exact absurd hi (Nat.not_lt_zero i)
  refine ⟨?_, ?_⟩
  · refine (nxmtSplitBlockStart_toNat arena.words W _ some (BitVec.le_of_lt worker)).trans ?_
    rw [forWorker_workerId hi]
  · refine (nxmtSplitBlockSize_toNat arena.words W _ worker).trans ?_
    rw [forWorker_workerId hi]

end

def ranWorker (env : Env Ram) (arena : NxmtArena) (config : NxmtRunConfig) (W : BitVec 32)
    (report : NxmtReport) (b : Board Ram) (i : Nat) : NxmtWorkerContext :=
  (exec env.serve (nxmtWorkerEntry
    ⟨arena, config.forWorker W i, report, ⟨0, 0, 0, .fixedA⟩, .unsupported⟩) b).1

/-- Run workers `0 .. W - 1` from fresh reports and merge them in worker order. -/
def passTotals (env : Env Ram) (arena : NxmtArena) (config : NxmtRunConfig) (W : BitVec 32)
    (total : NxmtReport) (reports : Nat → NxmtReport) (boards : Nat → Board Ram) : Totals :=
  (List.range W.toNat).foldl
    (fun t i => mergeWorkerContext (ranWorker env arena config W (reports i) (boards i) i) t)
    (initTotals total)

section
variable {base size : Word} (f : Fault) {config : NxmtRunConfig} {stops : Nat → Bool}
  {W : BitVec 32}
  (hbase : (nxmtArenaFromRange base size).base ≠ 0)
  (hwords : (nxmtArenaFromRange base size).words ≠ 0)
  (noInject : config.injectMismatch = false)
  (go : config.stopRequested = true → ∀ k, stops k = false)
include hbase hwords noInject go

theorem ranWorker_found (report : NxmtReport) (b : Board Ram) {i : Nat} (hi : i < W.toNat) :
    let arena := nxmtArenaFromRange base size
    let ctx := ranWorker ⟨ram, f.corrupt, stops⟩ arena config W report b i
    let phases := nxmtPhasesForMode config.mode
    let calls := faultCalls f (config.forWorker W i) phases
      (blockWords arena.words.toNat W.toNat i)
    let bytes := BitVec.ofNat 64 phases.length *
      (BitVec.ofNat 64 (Partition.size arena.words.toNat W.toNat i) * wordBytes)
    Denotes ctx.report calls ∧ ctx.status = (if calls = [] then .pass else .fail) ∧
      ctx.stats.bytesWritten = bytes ∧ ctx.stats.bytesVerified = bytes := by
  intro arena ctx phases calls bytes
  let env : Env Ram := ⟨ram, f.corrupt, stops⟩
  have still : ∀ m, env.device.Stable m := ram_stable
  have go' : env.Uninterrupted (config.forWorker W i) := go
  have ok : Accepts arena (config.forWorker W i) :=
    fromRange_accepts hbase hwords (forWorker_worker hi)
  obtain ⟨start, count⟩ := forWorker_slice arena config hi
  obtain ⟨-, -, report_eq, status_eq, last, pressure, stats_eq⟩ :=
    nxmtRunnerRunPass_uninterrupted still go' ok (nxmtArenaFromRange_wellFormed hwords).words_lt
      (nxmtReportInit report) ⟨0, 0, 0, .fixedA⟩ b
  have found : (passCalls env (sliceStart arena (config.forWorker W i))
      (sliceCount arena (config.forWorker W i)) (config.forWorker W i)
      (nxmtPhasesForMode (config.forWorker W i).mode) b.memory).1 = calls := by
    rw [start, count]
    have noInject' : (config.forWorker W i).injectMismatch = false := noInject
    exact passCalls_fault f stops noInject' _ _ _ _
  rw [found] at report_eq status_eq
  rw [count] at stats_eq
  have ctx_eq : ctx = ⟨arena, config.forWorker W i, (nxmtReportInit report).recordAll calls,
      ⟨bytes, bytes, pressure, last⟩, if calls = [] then .pass else .fail⟩ := by
    simp only [ctx, ranWorker, nxmtWorkerEntry, exec_bind, exec_pure]
    rw [report_eq, stats_eq, status_eq]
    rfl
  rw [ctx_eq]
  refine ⟨?_, rfl, rfl, rfl⟩
  have denotes := (Denotes.init report).recordAll calls
  rwa [List.nil_append] at denotes

theorem mergeWorkers_found (total : NxmtReport) (reports : Nat → NxmtReport)
    (boards : Nat → Board Ram) {k : Nat} (hk : k ≤ W.toNat) :
    let arena := nxmtArenaFromRange base size
    let n := arena.words.toNat
    let t := (List.range k).foldl (fun t i => mergeWorkerContext
      (ranWorker ⟨ram, f.corrupt, stops⟩ arena config W (reports i) (boards i) i) t)
      (initTotals total)
    let calls := workersCalls f config n W k
    let bytes := BitVec.ofNat 64 (nxmtPhasesForMode config.mode).length *
      (BitVec.ofNat 64 (Partition.start n W.toNat k) * wordBytes)
    Denotes t.report calls ∧ t.status = (if calls = [] then .pass else .fail) ∧
      t.totalStats.bytesWritten = bytes ∧ t.totalStats.bytesVerified = bytes := by
  induction k with
  | zero =>
    refine ⟨Denotes.init total, rfl, ?_, ?_⟩ <;> simp [initTotals]
  | succ k ih =>
    obtain ⟨report, status, written, verified⟩ := ih (by omega)
    obtain ⟨report', status', written', verified'⟩ :=
      ranWorker_found f hbase hwords noInject go (reports k) (boards k) hk
    have few : (faultCalls f (config.forWorker W k) (nxmtPhasesForMode config.mode)
        (blockWords (nxmtArenaFromRange base size).words.toNat W.toNat k)).length < 2 ^ 64 := by
      have le := faultCalls_length_le f (config.forWorker W k) (nxmtPhasesForMode config.mode)
        (blockWords (nxmtArenaFromRange base size).words.toNat W.toNat k)
      have turns := Nat.mul_le_mul_right
        (blockWords (nxmtArenaFromRange base size).words.toNat W.toNat k).length
        (nxmtPhasesForMode_length_le config.mode)
      have length : (blockWords (nxmtArenaFromRange base size).words.toNat W.toNat k).length ≤
          (nxmtArenaFromRange base size).words.toNat := by
        rw [blockWords, List.length_range']
        exact Partition.size_le hk
      have small := (nxmtArenaFromRange_wellFormed hwords).words_lt
      omega
    dsimp only
    rw [List.range_succ, List.foldl_append, List.foldl_cons, List.foldl_nil,
      workersCalls_succ, ← Partition.start_succ, BitVec.ofNat_add, BitVec.add_mul,
      BitVec.mul_add]
    refine ⟨report.merge report' few, ?_, ?_, ?_⟩
    · rw [mergeWorkerContext]
      dsimp only
      rw [status, status', combineWorkerStatus_ite]
      simp only [List.append_eq_nil_iff]
    · rw [mergeWorkerContext]
      dsimp only
      rw [written, written']
    · rw [mergeWorkerContext]
      dsimp only
      rw [verified, verified']

/-- Merged over any number of workers, a pass finds what one worker finds. -/
theorem passTotals_single (some : W ≠ 0) (total total' : NxmtReport)
    (reports reports' : Nat → NxmtReport) (boards boards' : Nat → Board Ram) :
    let arena := nxmtArenaFromRange base size
    let env : Env Ram := ⟨ram, f.corrupt, stops⟩
    let parts := passTotals env arena config W total reports boards
    let whole := passTotals env arena config 1 total' reports' boards'
    parts.report.hasFirstError = whole.report.hasFirstError ∧
      parts.report.errorCount = whole.report.errorCount ∧
      parts.report.minErrorOffset = whole.report.minErrorOffset ∧
      parts.report.maxErrorOffset = whole.report.maxErrorOffset ∧
      parts.report.bitDiffOr = whole.report.bitDiffOr ∧
      parts.totalStats.bytesWritten = whole.totalStats.bytesWritten ∧
      parts.totalStats.bytesVerified = whole.totalStats.bytesVerified ∧
      parts.status = whole.status := by
  intro arena env parts whole
  have pos : 0 < W.toNat := by
    rw [Nat.pos_iff_ne_zero]
    exact fun zero => some (BitVec.eq_of_toNat_eq zero)
  obtain ⟨denotes, status, written, verified⟩ :=
    mergeWorkers_found f hbase hwords noInject go total reports boards (le_refl W.toNat)
  obtain ⟨denotes', status', written', verified'⟩ :=
    mergeWorkers_found f hbase hwords noInject go total' reports' boards'
      (le_refl (1 : BitVec 32).toNat)
  have one : 0 < (1 : BitVec 32).toNat := Nat.one_pos
  have perm := (workersCalls_perm f config arena.words.toNat pos).trans
    (workersCalls_perm f config arena.words.toNat one).symm
  have nil : workersCalls f config arena.words.toNat W W.toNat = [] ↔
      workersCalls f config arena.words.toNat 1 (1 : BitVec 32).toNat = [] := by
    have length := perm.length_eq
    rw [List.length_map, List.length_map] at length
    rw [← List.length_eq_zero_iff, length, List.length_eq_zero_iff]
  obtain ⟨has, count, least, greatest, diffs⟩ := denotes.aggregate_eq denotes' perm
  refine ⟨has, count, least, greatest, diffs, ?_, ?_, ?_⟩
  · rw [Partition.start_self pos] at written
    rw [Partition.start_self one] at written'
    exact written.trans written'.symm
  · rw [Partition.start_self pos] at verified
    rw [Partition.start_self one] at verified'
    exact verified.trans verified'.symm
  · refine status.trans (Eq.trans ?_ status'.symm)
    exact if_congr nil rfl rfl

end

/-- Three workers on one page whose bit 5 of word 200 is stuck at zero: the fault is counted. -/
theorem passTotals_single_three :
    let f : Fault := fun _ w v => if w = 200 then v &&& ~~~0x20 else v
    let arena := nxmtArenaFromRange 0x1000 0x1000
    let config : NxmtRunConfig := ⟨.memoryLoad, 1, 0, 0, 1, false, false, false⟩
    let b : Board Ram := ⟨fun _ => 0, ⟨0, 0, false⟩⟩
    let env : Env Ram := ⟨ram, f.corrupt, fun _ => false⟩
    let totals := fun W => passTotals env arena config W zeroReport (fun _ => zeroReport) fun _ => b
    (totals 3).report.errorCount = 3 ∧
      (totals 3).report.errorCount = (totals 1).report.errorCount ∧
      (totals 3).status = .fail ∧ (totals 3).status = (totals 1).status := by
  intro f arena config b env totals
  have hbase : (nxmtArenaFromRange 0x1000 0x1000).base ≠ 0 := by decide
  have hwords : (nxmtArenaFromRange 0x1000 0x1000).words ≠ 0 := by decide
  have noInject : config.injectMismatch = false := rfl
  have go : config.stopRequested = true → ∀ k : Nat, (fun _ : Nat => false) k = false :=
    fun _ _ => rfl
  have some : (3 : BitVec 32) ≠ 0 := by decide
  obtain ⟨-, count, -, -, -, -, -, status⟩ := passTotals_single f hbase hwords noInject go some
    zeroReport zeroReport (fun _ => zeroReport) (fun _ => zeroReport) (fun _ => b) (fun _ => b)
  obtain ⟨denotes, verdict, -⟩ := mergeWorkers_found f hbase hwords noInject go zeroReport
    (fun _ => zeroReport) (fun _ => b) (le_refl (3 : BitVec 32).toNat)
  have length : (workersCalls f config arena.words.toNat 3 (3 : BitVec 32).toNat).length = 3 := by
    decide +kernel
  have found : workersCalls f config arena.words.toNat 3 (3 : BitVec 32).toNat ≠ [] :=
    List.ne_nil_of_length_eq_add_one length
  exact ⟨denotes.count.trans (by rw [length]; rfl), count, verdict.trans (if_neg found), status⟩

end NxMemTest
