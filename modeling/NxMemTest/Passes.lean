import NxMemTest.Verdict
import NxMemTest.Accounting
import Mathlib.Algebra.BigOperators.Fin

/-! The passes of a run and what they add up to: how many there were, how many
bytes their workers verified, and how many workers got to an end. -/

namespace NxMemTest
open Interaction Program

def runsWorkers : Event MainCall.Answer → Bool
  | ⟨.runWorkers .., _⟩ => true
  | _ => false

def passes (t : List (Event MainCall.Answer)) : List (Event MainCall.Answer) := t.filter runsWorkers

@[simp] theorem passes_append (t u : List (Event MainCall.Answer)) :
    passes (t ++ u) = passes t ++ passes u := List.filter_append t u

theorem idle_passes {t : List (Event MainCall.Answer)} (h : ∀ e ∈ t, e.1.Idle) : passes t = [] := by
  refine List.filter_eq_nil_iff.2 fun e he => ?_
  have idle := h e he
  obtain ⟨c, r⟩ := e
  cases c with
  | runWorkers => exact absurd idle id
  | _ => simp [runsWorkers]

theorem finished_passes (t : List (Event MainCall.Answer)) :
    finished t = (passes t).flatMap finishedWorkers := by
  induction t with
  | nil => rfl
  | cons e t ih =>
    obtain ⟨c, r⟩ := e
    cases c with
    | runWorkers =>
      rw [passes, List.filter_cons_of_pos rfl, List.flatMap_cons, finished_cons, ih]
      rfl
    | _ =>
      rw [passes, List.filter_cons_of_neg (by simp [runsWorkers]), finished_cons, ih]
      rfl

/-- A pass shares the words out to all the workers; the fallback is one worker of one. -/
def SharedOut (c : MainConfig) : Event MainCall.Answer → Prop
  | ⟨.runWorkers started contexts _, _⟩ => ∃ workers pass progressBytes,
    0 < started ∧ started ≤ workers.toNat ∧ contexts = workerContext c workers pass progressBytes ∧
      (workers = c.workers ∨ workers = 1)
  | _ => True

theorem idle_sharedOut {c : MainConfig} {t : List (Event MainCall.Answer)}
    (h : ∀ e ∈ t, e.1.Idle) : ∀ e ∈ t, SharedOut c e := by
  intro e he
  have idle := h e he
  obtain ⟨call, answer⟩ := e
  cases call with
  | runWorkers => exact absurd idle id
  | _ => trivial

structure Counted (c : MainConfig) (t : List (Event MainCall.Answer)) (st st' : RunState) : Prop where
  completed : st'.passesCompleted = st.passesCompleted + BitVec.ofNat 64 (passes t).length
  shared : ∀ e ∈ t, SharedOut c e

section
variable {c : MainConfig} {testStarted : Word} {t u : List (Event MainCall.Answer)}
  {st st' st'' : RunState}

theorem Counted.idle (h : ∀ e ∈ t, e.1.Idle) (same : st'.passesCompleted = st.passesCompleted) :
    Counted c t st st' := by
  refine ⟨?_, idle_sharedOut h⟩
  rw [idle_passes h, same]
  simp

theorem Counted.trans (h : Counted c t st st') (h' : Counted c u st' st'') :
    Counted c (t ++ u) st st'' := by
  refine ⟨?_, List.forall_mem_append.2 ⟨h.shared, h'.shared⟩⟩
  rw [h'.completed, h.completed, passes_append, List.length_append, BitVec.ofNat_add,
    BitVec.add_assoc]

theorem Counted.pass {e : Event MainCall.Answer} (runs : runsWorkers e = true)
    (shared : SharedOut c e) (one : st'.passesCompleted = st.passesCompleted + 1) :
    Counted c [e] st st' := by
  refine ⟨?_, by simpa using shared⟩
  rw [one, passes, List.filter_cons_of_pos runs]
  rfl

theorem Turn.counted {more : Bool} (h : Turn c testStarted st t more st') :
    Counted c t st st' := by
  cases h with
  | late idle _ => exact .idle idle rfl
  | fallback idle => exact .idle idle rfl
  | pass idle some_worker few _ _ _ _ =>
    have before : Counted c _ st st := .idle idle rfl
    exact before.trans (.pass rfl ⟨c.workers, _, true, some_worker, few, rfl, .inl rfl⟩ rfl)

theorem path_runFallback_counted (h : Path (runFallback c st) t st') : Counted c t st st' := by
  unfold runFallback at h
  split at h
  · obtain ⟨runs, u, rfl, hu⟩ := path_call_bind.1 h
    obtain ⟨rfl, rfl⟩ := path_pure.1 hu
    exact .pass rfl ⟨1, _, false, Nat.one_pos, le_rfl, rfl, .inr rfl⟩ rfl
  · obtain ⟨rfl, rfl⟩ := path_pure.1 h
    exact .idle (by simp) rfl

end

theorem path_mainRun_counted {mode : NxmtMode} {seed durationMs : Word} {arena : NxmtArena}
    {workers : BitVec 32} {report : NxmtReport} {fuel : Nat} {t : List (Event MainCall.Answer)}
    {out : MainResult} (hbase : arena.base ≠ 0) (wf : arena.WellFormed) (hwords : arena.words ≠ 0)
    (hworkers : workers ≠ 0)
    (h : Path (mainRun mode seed durationMs arena workers report fuel) t (some out)) :
    out.state.passesCompleted = BitVec.ofNat 64 (passes t).length ∧
      ∀ e ∈ t, SharedOut out.config e := by
  obtain ⟨front, loop, back, st, rfl, parts⟩ := path_mainRun_stretches hbase wf hwords hworkers h
  let st₀ : RunState := ⟨initTotals report, 0, 0, false, false, false⟩
  have before : Counted out.config front st₀ st₀ := .idle parts.idle rfl
  have ran : Counted out.config loop st₀ st :=
    path_mainLoop_inv (fun t st' => Counted out.config t st₀ st')
      (fun _ _ _ _ _ early turn => early.trans turn.counted) parts.fit.workers rfl
      (.idle (by simp) rfl) parts.loop_path
  have after : Counted out.config [⟨.gpuPumpErrBatches, out.gpuErrBatches⟩] out.state out.state :=
    .idle (by simp [MainCall.Idle]) rfl
  have whole := before.trans (ran.trans ((path_runFallback_counted parts.back_path).trans after))
  exact ⟨by rw [whole.completed, zero_add], whole.shared⟩

theorem SharedOut.started {c : MainConfig} {e : Event MainCall.Answer} (h : SharedOut c e) :
    Started c e := by
  obtain ⟨call, answer⟩ := e
  cases call with
  | runWorkers =>
    obtain ⟨workers, pass, progressBytes, some_worker, few, contexts, -⟩ := h
    exact ⟨workers, pass, progressBytes, some_worker, few, contexts⟩
  | _ => trivial

/-! ### One worker -/

namespace FinishedWorker
variable (f : FinishedWorker)

def start : Nat := sliceStart f.context.arena f.context.config
def count : Nat := sliceCount f.context.arena f.context.config

def phases : List NxmtPhase := nxmtPhasesForMode f.context.config.mode

def counted : List (NxmtPhase × Nat) :=
  (verifiedWords f.run.events).take
    (f.count * ((verifiedWords f.run.events).length / f.count))

variable {f} (ok : Accepts f.context.arena f.context.config)
include ok

theorem counts : ∃ out n k, PassCounts f.start f.count f.phases ⟨0, 0, 0, .fixedA⟩ f.run.events out n k ∧
    f.run.result.stats.bytesVerified =
      BitVec.ofNat 64 (n / 2) * (BitVec.ofNat 64 f.count * wordBytes) := by
  obtain ⟨out, u, v, shape, hu, hv⟩ := path_bind.1 f.run.path
  obtain ⟨rfl, result⟩ := path_pure.1 hv
  rw [List.append_nil] at shape
  rw [← shape, nxmtRunnerRunPass_accepts _ _ ok] at hu
  obtain ⟨n, k, counts⟩ := path_runPhases_counts hu
  refine ⟨out, n, k, counts, ?_⟩
  obtain ⟨last, pressure, stats_eq⟩ := counts.bytes
  rw [result, stats_eq]
  exact zero_add _

theorem bytesVerified_eq :
    f.run.result.stats.bytesVerified = BitVec.ofNat 64 (8 * f.counted.length) := by
  obtain ⟨out, n, k, counts, bytes⟩ := counts ok
  have length := counts.verified_length
  have rest := counts.rest
  have whole : f.count * ((verifiedWords f.run.events).length / f.count) = f.count * (n / 2) := by
    rcases Nat.eq_zero_or_pos f.count with none | pos
    · rw [none, Nat.zero_mul, Nat.zero_mul]
    · have part : (if n % 2 = 1 then k else 0) < f.count := by split <;> omega
      rw [length, Nat.mul_add_div pos, Nat.div_eq_of_lt part, Nat.add_zero]
  have words : f.counted.length = f.count * (n / 2) := by
    rw [counted, List.length_take, whole, length]
    omega
  have eight : wordBytes = BitVec.ofNat 64 8 := rfl
  have same : n / 2 * (f.count * 8) = 8 * (f.count * (n / 2)) := by ring
  rw [bytes, words, eight, ← BitVec.ofNat_mul, ← BitVec.ofNat_mul, same]

theorem verified_initial : verifiedWords f.run.events <+: phaseWords f.phases f.start f.count := by
  obtain ⟨out, n, k, counts, -⟩ := counts ok
  exact counts.verified_eq ▸ List.take_prefix _ _

theorem quiet_iff (pos : 0 < f.count) :
    Quiet f.run.events ↔ verifiedWords f.run.events = phaseWords f.phases f.start f.count := by
  obtain ⟨out, n, k, counts, -⟩ := counts ok
  have length := counts.verified_length
  have rest := counts.rest
  have most := counts.most
  rw [counts.quiet_iff]
  constructor
  · intro whole
    refine (verified_initial ok).eq_of_length ?_
    have half : n / 2 = f.phases.length := by omega
    rw [length, phaseWords_length, half, if_neg (by omega), Nat.add_zero, Nat.mul_comm]
  · intro whole
    rw [whole, phaseWords_length] at length
    by_contra cut
    -- a half is missing, and what is left of it does not make up for it
    have half : n / 2 + 1 ≤ f.phases.length := by omega
    have turn := Nat.mul_le_mul_left f.count half
    rw [Nat.mul_succ, Nat.mul_comm _ f.phases.length] at turn
    split at length <;> omega

theorem counted_length_quiet (quiet : Quiet f.run.events) :
    f.counted.length = f.phases.length * f.count := by
  rcases Nat.eq_zero_or_pos f.count with none | pos
  · rw [counted, none, Nat.zero_mul, List.take_zero, Nat.mul_zero]
    rfl
  · rw [counted, (quiet_iff ok pos).1 quiet, List.length_take, phaseWords_length,
      Nat.mul_div_cancel _ pos, Nat.mul_comm f.count, Nat.min_self]

end FinishedWorker

/-! ### The workers of a pass -/

def FinishedWorker.Owns (f : FinishedWorker) (w : Nat) : Prop :=
  f.start ≤ w ∧ w < f.start + f.count

section
variable {c : MainConfig} (fit : c.Fit) {e : Event MainCall.Answer} (shared : SharedOut c e)
include shared

include fit in
theorem SharedOut.worker {f : FinishedWorker} (hf : f ∈ finishedWorkers e) :
    Accepts f.context.arena f.context.config ∧ f.phases = nxmtPhasesForMode c.mode ∧
      ∃ W i, i < W ∧ f.start = Partition.start c.cpuArena.words.toNat W i ∧
        f.count = Partition.size c.cpuArena.words.toNat W i := by
  refine ⟨shared.started.accepts fit f hf, ?_⟩
  obtain ⟨call, runs⟩ := e
  cases call with
  | runWorkers started contexts stop =>
    obtain ⟨workers, pass, progressBytes, -, few, rfl, -⟩ := shared
    obtain ⟨i, -, rfl⟩ := List.mem_map.1 hf
    have hi : i.val < workers.toNat := i.isLt.trans_le few
    obtain ⟨start, count⟩ := forWorker_slice c.cpuArena
      ⟨c.mode, c.seed, pass, 0, workers, false, true, progressBytes⟩ hi
    exact ⟨rfl, workers.toNat, i, hi, start, count⟩
  | _ => exact absurd hf List.not_mem_nil

theorem SharedOut.slices : ∃ W started, started ≤ W ∧
    (finishedWorkers e).map (fun f => (f.start, f.count)) = (List.range started).map fun i =>
      (Partition.start c.cpuArena.words.toNat W i, Partition.size c.cpuArena.words.toNat W i) := by
  obtain ⟨call, runs⟩ := e
  cases call with
  | runWorkers started contexts stop =>
    obtain ⟨workers, pass, progressBytes, -, few, rfl, -⟩ := shared
    refine ⟨workers.toNat, started, few, ?_⟩
    rw [← List.map_coe_finRange_eq_range, List.map_map, finishedWorkers, List.map_map]
    refine List.map_congr_left fun i _ => ?_
    obtain ⟨start, count⟩ := forWorker_slice c.cpuArena
      ⟨c.mode, c.seed, pass, 0, workers, false, true, progressBytes⟩ (i.isLt.trans_le few)
    exact Prod.ext start count
  | _ => exact ⟨0, 0, le_rfl, rfl⟩

theorem SharedOut.owner_unique {f g : FinishedWorker} (hf : f ∈ finishedWorkers e)
    (hg : g ∈ finishedWorkers e) {w : Nat} (own : f.Owns w) (own' : g.Owns w) : f = g := by
  obtain ⟨call, runs⟩ := e
  cases call with
  | runWorkers started contexts stop =>
    obtain ⟨workers, pass, progressBytes, -, few, rfl, -⟩ := shared
    obtain ⟨i, -, rfl⟩ := List.mem_map.1 hf
    obtain ⟨j, -, rfl⟩ := List.mem_map.1 hg
    have slice := fun k : Fin started => forWorker_slice c.cpuArena
      ⟨c.mode, c.seed, pass, 0, workers, false, true, progressBytes⟩ (k.isLt.trans_le few)
    obtain ⟨low, high⟩ := own
    obtain ⟨low', high'⟩ := own'
    simp only [FinishedWorker.start, FinishedWorker.count, workerContext_config] at low high low' high'
    have same : i.val = j.val := Partition.block_unique
      ((slice i).1 ▸ low) ((slice i).1 ▸ (slice i).2 ▸ high)
      ((slice j).1 ▸ low') ((slice j).1 ▸ (slice j).2 ▸ high')
    rw [Fin.ext same]
  | _ => exact absurd hf List.not_mem_nil

include fit in
theorem SharedOut.owns {f : FinishedWorker} (hf : f ∈ finishedWorkers e) {phase : NxmtPhase}
    {w : Nat} (verified : (phase, w) ∈ verifiedWords f.run.events) : f.Owns w := by
  obtain ⟨ok, -⟩ := shared.worker fit hf
  exact (mem_phaseWords.1 ((FinishedWorker.verified_initial ok).subset verified)).2

end

/-! ### The totals -/

theorem mergeAll_bytesVerified (workers : List FinishedWorker) (totals : Totals)
    (ok : ∀ f ∈ workers, Accepts f.context.arena f.context.config) :
    (mergeAll workers totals).totalStats.bytesVerified = totals.totalStats.bytesVerified +
      BitVec.ofNat 64 (8 * (workers.flatMap FinishedWorker.counted).length) := by
  induction workers generalizing totals with
  | nil => simp [mergeAll]
  | cons f workers ih =>
    have step := ih (mergeWorkerContext f.run.result totals) fun g hg =>
      ok g (List.mem_cons_of_mem _ hg)
    refine step.trans ?_
    rw [List.flatMap_cons, List.length_append, Nat.mul_add, BitVec.ofNat_add, ← BitVec.add_assoc,
      ← FinishedWorker.bytesVerified_eq (ok f List.mem_cons_self)]
    rfl

def FinishedWorker.completes (f : FinishedWorker) : Bool :=
  f.run.result.status ≠ .unsupported ∧ f.run.result.status ≠ .aborted

theorem mergeAll_completedWorkers (workers : List FinishedWorker) (totals : Totals) :
    (mergeAll workers totals).completedWorkers = totals.completedWorkers +
      BitVec.ofNat 32 (workers.countP FinishedWorker.completes) := by
  induction workers generalizing totals with
  | nil => simp [mergeAll]
  | cons f workers ih =>
    refine (ih (mergeWorkerContext f.run.result totals)).trans ?_
    rw [List.countP_cons, BitVec.ofNat_add, BitVec.add_comm (BitVec.ofNat 32 _), ← BitVec.add_assoc]
    congr 1
    by_cases completes : f.completes = true
    · have status : f.run.result.status ≠ .unsupported ∧ f.run.result.status ≠ .aborted :=
        of_decide_eq_true completes
      rw [mergeWorkerContext, if_pos status, if_pos completes]
      rfl
    · have status : ¬ (f.run.result.status ≠ .unsupported ∧ f.run.result.status ≠ .aborted) :=
        fun h => completes (decide_eq_true h)
      rw [mergeWorkerContext, if_neg status, if_neg completes]
      simp

end NxMemTest
