import NxMemTest.Passes
import NxMemTest.Coverage
import NxMemTest.Confinement

/-! The first error of a merged report can be reproduced: it names the seed, the pass,
the phase and the word it was found at, and the value that was expected there. -/

namespace NxMemTest
open Interaction Program

/-- `contents phase` is what the memory holds while the worker verifies `phase`. -/
def VerifiedStable (f : FinishedWorker) (contents : NxmtPhase → Ram) : Prop :=
  ∀ (p n s : Nat) (phase : NxmtPhase) (config : NxmtRunConfig) (calls : List RecordCall),
    (⟨.verifyChunk p n s phase config, calls⟩ : Event Call.Answer) ∈ f.run.events →
    calls = (nxmtVerifyChunk ram p n (BitVec.ofNat 64 s) phase config (contents phase)).1

/-- What the first error of `r` tells of the worker `f` that recorded it at word `w`. -/
structure Reproduces (r : NxmtReport) (f : FinishedWorker) (contents : NxmtPhase → Ram) (w : Nat) :
    Prop where
  mode_eq : r.first.mode = f.context.config.mode
  seed_eq : r.first.seed = f.context.config.seed
  pass_eq : r.first.pass = f.context.config.pass
  worker_eq : r.first.workerId = f.context.config.workerId
  phase_mem : r.first.phase ∈ nxmtPhasesForMode f.context.config.mode
  low : Partition.start f.context.arena.words.toNat f.context.config.workerCount.toNat
    r.first.workerId.toNat ≤ w
  high : w < Partition.start f.context.arena.words.toNat f.context.config.workerCount.toNat
    r.first.workerId.toNat + Partition.size f.context.arena.words.toNat
      f.context.config.workerCount.toNat r.first.workerId.toNat
  offset_eq : r.first.offset.toNat = 8 * w
  expected_eq : r.first.expected =
    nxmtExpectedValue r.first.seed r.first.phase r.first.pass r.first.offset
  actual_eq : r.first.actual = contents r.first.phase w
  diff_eq : r.first.xorDiff = r.first.expected ^^^ r.first.actual
  diff_ne : r.first.xorDiff ≠ 0
  diff_le : r.first.xorDiff ||| r.bitDiffOr = r.bitDiffOr
  least : r.minErrorOffset ≤ r.first.offset
  greatest : r.first.offset ≤ r.maxErrorOffset
  inside : r.maxErrorOffset.toNat < 8 * f.context.arena.words.toNat

namespace FinishedWorker
variable {f : FinishedWorker} (ok : Accepts f.context.arena f.context.config)
include ok

theorem asked : ∀ e ∈ f.run.events,
    Call.OfPass f.start f.count f.context.config f.phases e.1 := by
  obtain ⟨out, u, v, shape, hu, hv⟩ := path_bind.1 f.run.path
  obtain ⟨rfl, -⟩ := path_pure.1 hv
  rw [List.append_nil] at shape
  rw [shape]
  exact hu.asked (nxmtRunnerRunPass_uses ok _ _)

theorem slice_eq :
    f.start = Partition.start f.context.arena.words.toNat f.context.config.workerCount.toNat
        f.context.config.workerId.toNat ∧
      f.count = Partition.size f.context.arena.words.toNat f.context.config.workerCount.toNat
        f.context.config.workerId.toNat :=
  ⟨nxmtSplitBlockStart_toNat _ _ _ ok.workers (BitVec.le_of_lt ok.worker),
    nxmtSplitBlockSize_toNat _ _ _ ok.worker⟩

theorem mem_records (small : f.context.arena.words.toNat < 2 ^ 61) {contents : NxmtPhase → Ram}
    (stable : VerifiedStable f contents) {c : RecordCall} (hc : c ∈ records f.run.events) :
    ∃ phase ∈ f.phases, ∃ w, f.Owns w ∧ c = errorCall f.context.config phase w (contents phase w) ∧
      contents phase w ≠ expectedWord f.context.config.seed phase f.context.config.pass w := by
  obtain ⟨e, he, hc⟩ := List.mem_flatMap.1 hc
  have own := asked ok e he
  obtain ⟨call, calls⟩ := e
  cases call with
  | verifyChunk p n s phase config =>
    obtain ⟨rfl, low, high, listed, rfl⟩ := own
    have inside : f.start + f.count ≤ f.context.arena.words.toNat := slice_le ok
    have found := stable s n s phase _ calls he
    rw [nxmtVerifyChunk_stable ram (ram_stable _) s n s (by omega)] at found
    change c ∈ calls at hc
    rw [found] at hc
    obtain ⟨w, hw, rfl⟩ := List.mem_map.1 hc
    obtain ⟨hw, wrong⟩ := List.mem_filter.1 hw
    obtain ⟨low', high'⟩ := List.mem_range'_1.1 hw
    simp only [ram_view, Nat.add_sub_cancel' low', decide_eq_true_eq] at wrong ⊢
    exact ⟨phase, listed, w, ⟨by omega, by omega⟩, rfl, wrong⟩
  | stopRequested | writeChunk | load | store | progressAdd => exact absurd hc List.not_mem_nil

end FinishedWorker

theorem Denotes.diff_le {r : NxmtReport} {l : List RecordCall} (h : Denotes r l) {c : RecordCall}
    (hc : c ∈ l) : c.diff ||| r.bitDiffOr = r.bitDiffOr := by
  apply BitVec.eq_of_getLsbD_eq
  intro i _
  rw [BitVec.getLsbD_or]
  cases bit : c.diff.getLsbD i with
  | false => rfl
  | true =>
    rw [Bool.true_or, h.diffs, eq_comm, BitWord.getLsbD_foldr_or]
    exact ⟨c.diff, List.mem_map.2 ⟨c, hc, rfl⟩, bit⟩

theorem mergeAll_reproduces {arena : NxmtArena} (small : arena.words.toNat < 2 ^ 61)
    {workers : List FinishedWorker} {contents : FinishedWorker → NxmtPhase → Ram}
    (ok : ∀ f ∈ workers, f.context.arena = arena ∧ Accepts arena f.context.config)
    (stable : ∀ f ∈ workers, VerifiedStable f (contents f)) (total : NxmtReport)
    (few : (workerRecords workers).length < 2 ^ 64)
    (found : (mergeAll workers (initTotals total)).report.hasFirstError = true) :
    ∃ f ∈ workers, ∃ w, Reproduces (mergeAll workers (initTotals total)).report f (contents f) w := by
  have ok' : ∀ f ∈ workers, Accepts f.context.arena f.context.config := fun f hf =>
    (ok f hf).1 ▸ (ok f hf).2
  have sound := mergeAll_sound workers (initTotals_sound total True) ok' few fun _ _ _ => trivial
  rw [List.nil_append] at sound
  have denotes := sound.report
  generalize (mergeAll workers (initTotals total)).report = r at denotes found ⊢
  have recording : ∀ c ∈ workerRecords workers, ∃ f ∈ workers, ∃ phase ∈ f.phases, ∃ w, f.Owns w ∧
      c = errorCall f.context.config phase w (contents f phase w) ∧ contents f phase w ≠
        expectedWord f.context.config.seed phase f.context.config.pass w := by
    intro c hc
    obtain ⟨f, hf, hc⟩ := List.mem_flatMap.1 hc
    exact ⟨f, hf, FinishedWorker.mem_records (ok' f hf) ((ok f hf).1 ▸ small) (stable f hf) hc⟩
  have offset : ∀ f ∈ workers, ∀ w, f.Owns w →
      (BitVec.ofNat 64 (8 * w)).toNat = 8 * w ∧ w < arena.words.toNat := by
    intro f hf w own
    have inside : f.start + f.count ≤ arena.words.toNat := (ok f hf).1 ▸ slice_le (ok' f hf)
    obtain ⟨low, high⟩ := own
    rw [BitVec.toNat_ofNat]
    omega
  have some_record := denotes.hasFirst.1 found
  obtain ⟨c, rest, shape⟩ := List.exists_cons_of_ne_nil some_record
  have hc : c ∈ workerRecords workers := shape ▸ List.mem_cons_self
  have first : r.first = c.error := denotes.first c (by rw [shape]; rfl)
  obtain ⟨f, hf, phase, hphase, w, own, rfl, wrong⟩ := recording c hc
  obtain ⟨value, -⟩ := offset f hf w own
  obtain ⟨start, count⟩ := FinishedWorker.slice_eq (ok' f hf)
  obtain ⟨low, high⟩ := own
  rw [start] at low high
  rw [count] at high
  refine ⟨f, hf, w, ?_⟩
  constructor
  case inside =>
    obtain ⟨d, hd, most⟩ := denotes.greatest_mem some_record
    obtain ⟨g, hg, phase', -, w', own', rfl, -⟩ := recording d hd
    obtain ⟨value', lt⟩ := offset g hg w' own'
    rw [← most, (ok f hf).1]
    exact lt_of_eq_of_lt value' (by omega)
  case diff_ne =>
    rw [first]
    exact BitWord.xor_ne_zero.2 (Ne.symm wrong)
  case diff_le => exact first ▸ denotes.diff_le hc
  case least => exact first ▸ denotes.least _ hc
  case greatest => exact first ▸ denotes.greatest _ hc
  case phase_mem => exact first ▸ hphase
  case low => exact first ▸ low
  case high => exact first ▸ high
  case offset_eq => exact first ▸ value
  all_goals rw [first]; rfl

theorem SharedOut.context {c : MainConfig} {e : Event MainCall.Answer} (shared : SharedOut c e)
    {f : FinishedWorker} (hf : f ∈ finishedWorkers e) :
    f.context.arena = c.cpuArena ∧ f.context.config.mode = c.mode ∧
      f.context.config.seed = c.seed ∧
      (f.context.config.workerCount = c.workers ∨ f.context.config.workerCount = 1) := by
  obtain ⟨call, runs⟩ := e
  cases call with
  | runWorkers started contexts stop =>
    obtain ⟨workers, pass, progressBytes, -, few, rfl, all⟩ := shared
    obtain ⟨i, -, rfl⟩ := List.mem_map.1 hf
    exact ⟨rfl, rfl, rfl, all⟩
  | _ => exact absurd hf List.not_mem_nil

/-- The first error of any list of workers of an arena, merged in the listed order, and
of the workers of a run, merged in any order. -/
theorem firstError_reproduces (base size : Word) :
    (∀ (workers : List FinishedWorker) (contents : FinishedWorker → NxmtPhase → Ram)
      (total : NxmtReport),
      (∀ f ∈ workers, f.context.arena = nxmtArenaFromRange base size ∧
        Accepts (nxmtArenaFromRange base size) f.context.config) →
      (∀ f ∈ workers, VerifiedStable f (contents f)) →
      (workerRecords workers).length < 2 ^ 64 →
      let r := (mergeAll workers (initTotals total)).report
      r.hasFirstError = true → ∃ f ∈ workers, ∃ w, Reproduces r f (contents f) w) ∧
    ∀ (mode : NxmtMode) (seed durationMs : Word) (workers : BitVec 32) (report : NxmtReport)
      (fuel : Nat) (t : List (Event MainCall.Answer)) (out : MainResult)
      (contents : FinishedWorker → NxmtPhase → Ram),
      (nxmtArenaFromRange base size).base ≠ 0 → (nxmtArenaFromRange base size).words ≠ 0 →
      workers ≠ 0 →
      Path (mainRun mode seed durationMs (nxmtArenaFromRange base size) workers report fuel) t
        (some out) →
      (∀ f ∈ finished t, VerifiedStable f (contents f)) →
      (workerRecords (finished t)).length < 2 ^ 64 →
      out.state.totals = mergeAll (finished t) (initTotals report) ∧
        ∀ order : List FinishedWorker, order.Perm (finished t) →
          let r := (mergeAll order (initTotals report)).report
          r.hasFirstError = true → ∃ e ∈ t, ∃ f ∈ finishedWorkers e, ∃ w,
            Reproduces r f (contents f) w ∧ r.first.seed = seed ∧
              r.first.phase ∈ nxmtPhasesForMode mode ∧ f.context.arena = out.config.cpuArena ∧
              (f.context.config.workerCount = out.config.workers ∨
                f.context.config.workerCount = 1 ∧ r.first.workerId = 0 ∧ f.start = 0 ∧
                  f.count = out.config.cpuArena.words.toNat) := by
  refine ⟨?_, ?_⟩
  · intro workers contents total ok stable few r found
    refine mergeAll_reproduces ?_ ok stable total few found
    by_cases hwords : (nxmtArenaFromRange base size).words = 0
    · rw [hwords]
      decide
    · exact (nxmtArenaFromRange_wellFormed hwords).words_lt
  · intro mode seed durationMs workers report fuel t out contents hbase hwords hworkers path
      stable few
    have wf := nxmtArenaFromRange_wellFormed hwords
    have ran := path_mainRun hbase wf hwords hworkers path
    obtain ⟨front, loop, back, st, -, parts⟩ :=
      path_mainRun_stretches hbase wf hwords hworkers path
    obtain ⟨-, shared⟩ := path_mainRun_counted hbase wf hwords hworkers path
    refine ⟨ran.ran.totals, ?_⟩
    intro order perm r found
    have known : ∀ f ∈ order, ∃ e ∈ t, f ∈ finishedWorkers e := fun f hf =>
      List.mem_flatMap.1 (perm.mem_iff.1 hf)
    have ok : ∀ f ∈ order, f.context.arena = out.config.cpuArena ∧
        Accepts out.config.cpuArena f.context.config := by
      intro f hf
      obtain ⟨e, he, hf⟩ := known f hf
      have arena := ((shared e he).context hf).1
      exact ⟨arena, arena ▸ (ran.ran.started e he).accepts ran.fit f hf⟩
    have few' : (workerRecords order).length < 2 ^ 64 :=
      lt_of_eq_of_lt (perm.flatMap_right _).length_eq few
    obtain ⟨f, hf, w, reproduces⟩ := mergeAll_reproduces ran.fit.wellFormed.words_lt ok
      (fun f hf => stable f (perm.mem_iff.1 hf)) report few' found
    obtain ⟨e, he, hf'⟩ := known f hf
    obtain ⟨arena, mode_eq, seed_eq, count⟩ := (shared e he).context hf'
    have mode_eq : f.context.config.mode = mode := mode_eq.trans ran.mode_eq
    have seed_eq : f.context.config.seed = seed :=
      seed_eq.trans (congrArg MainConfig.seed parts.config_eq)
    refine ⟨e, he, f, hf', w, reproduces, reproduces.seed_eq.trans seed_eq,
      mode_eq ▸ reproduces.phase_mem, arena, count.imp_right fun one => ?_⟩
    have worker := (ok f hf).2.worker
    have id : f.context.config.workerId = 0 := by
      rw [one] at worker
      bv_omega
    obtain ⟨start, words⟩ := FinishedWorker.slice_eq (arena.symm ▸ (ok f hf).2)
    rw [one, id, arena] at start words
    exact ⟨one, reproduces.worker_eq.trans id, start.trans (Partition.start_zero _ _),
      words.trans (Partition.size_one _)⟩

/-! ### A run on memory with one bad word -/

/-- Memory that holds `contents` in the verify halves, and a stop flag that the fifth
poll finds raised if anybody raises it. -/
def holding (contents : NxmtPhase → Ram) (stop : Bool) : (c : Call) → Nat → Call.Answer c × Nat
  | .stopRequested, k => (stop && 3 < k, k + 1)
  | .writeChunk .., k => ((), k)
  | .verifyChunk p n s phase config, k =>
    ((nxmtVerifyChunk ram p n (BitVec.ofNat 64 s) phase config (contents phase)).1, k)
  | .load _, k => (0, k)
  | .store _ _, k => ((), k)
  | .progressAdd _, k => ((), k)

def holdingRun (contents : NxmtPhase → Ram) (ctx : NxmtWorkerContext) (stop : Bool) :
    WorkerRun ctx stop where
  events := trace (holding contents stop) (nxmtWorkerEntry ctx) 0
  result := (exec (holding contents stop) (nxmtWorkerEntry ctx) 0).1
  path := path_trace _ _ _
  quiet := by
    rintro rfl e he
    obtain ⟨k, answer⟩ := mem_trace (holding contents false) he
    obtain ⟨c, r⟩ := e
    cases c with
    | stopRequested => exact answer
    | _ => rfl

theorem holdingRun_stable (contents : NxmtPhase → Ram) (ctx : NxmtWorkerContext) (stop : Bool) :
    VerifiedStable ⟨ctx, stop, holdingRun contents ctx stop⟩ contents := by
  intro p n s phase config calls he
  obtain ⟨k, answer⟩ := mem_trace (holding contents stop) he
  exact answer

def oneBadWord (phase : NxmtPhase) : Ram := fun w => if w = 3 then 0 else expectedWord 1 phase 0 w

def pageRun : Main (Option MainResult) :=
  mainRun .memoryLoad 1 180000 (nxmtArenaFromRange 0x1000 0x1000) 1 zeroReport 2

def oneBadWordServe : (e : MainCall) → Nat → MainCall.Answer e × Nat
  | .runWorkers _ contexts stop, k => (fun worker => holdingRun oneBadWord (contexts worker) stop, k)
  | e, k => timedOutServe e k

/-- The run is cut after the first phase, and what that phase found is reproducible. -/
theorem firstError_reproduces_oneBadWord :
    ∃ out, Path pageRun (trace oneBadWordServe pageRun 0) (some out) ∧
      out.state.totals.report.first.offset = 24 ∧
      ∃ f ∈ finished (trace oneBadWordServe pageRun 0), ∃ w,
        Reproduces out.state.totals.report f oneBadWord w := by
  have ends : ((exec oneBadWordServe pageRun 0).1.map fun out =>
      (out.state.totals.report.hasFirstError, out.state.totals.report.first.offset)) =
      some (true, 24) := by
    decide +kernel
  obtain ⟨out, path, values⟩ := path_of_exec_map _ ends
  obtain ⟨found, offset⟩ := by simpa only [Prod.mk.injEq] using values
  have stable : ∀ f ∈ finished (trace oneBadWordServe pageRun 0), VerifiedStable f oneBadWord := by
    intro f hf
    obtain ⟨⟨call, runs⟩, he, hf⟩ := List.mem_flatMap.1 hf
    obtain ⟨k, answer⟩ := mem_trace oneBadWordServe he
    cases call with
    | runWorkers started contexts stop =>
      obtain ⟨worker, -, rfl⟩ := List.mem_map.1 hf
      rw [show runs = _ from answer]
      exact holdingRun_stable _ _ _
    | _ => exact absurd hf List.not_mem_nil
  have few : (workerRecords (finished (trace oneBadWordServe pageRun 0))).length < 2 ^ 64 := by
    decide +kernel
  obtain ⟨totals, first⟩ := (firstError_reproduces 0x1000 0x1000).2 .memoryLoad 1 180000 1 zeroReport
    2 _ out (fun _ => oneBadWord) (by decide) (by decide) (by decide) path stable few
  have in_order := first _ (List.Perm.refl _)
  rw [← totals] at in_order
  obtain ⟨e, he, f, hf, w, reproduces, -⟩ := in_order found
  exact ⟨out, path, offset, f, List.mem_flatMap.2 ⟨e, he, hf⟩, w, reproduces⟩

end NxMemTest
