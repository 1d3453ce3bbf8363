import NxMemTest.Accounting
import NxMemTest.SharedMemory
import NxMemTest.Verdict
import Mathlib.Algebra.BigOperators.Fin
import Mathlib.Algebra.BigOperators.Ring.Finset
import Mathlib.Algebra.Order.BigOperators.Group.Finset

/-! The progress counters. A worker counts the bytes of each chunk once it is through
with it, so at every moment its counter is behind its words by at most one chunk. -/

namespace NxMemTest
open Interaction Program

def added : Event Call.Answer → Word
  | ⟨.progressAdd delta, _⟩ => delta
  | _ => 0

def progressCounter (t : List (Event Call.Answer)) : Word := (t.map added).sum

def progress (t : List (Event Call.Answer)) : Nat := (t.map fun e => (added e).toNat).sum

/-- The bytes of chunks that are still to be counted after an event, `p` before it.
No chunk begins before the one before it is counted, and it is counted exactly. -/
def tally (p : Nat) : Event Call.Answer → Option Nat
  | ⟨.writeChunk _ n .., _⟩ => if p = 0 then some (8 * n) else none
  | ⟨.verifyChunk _ n .., _⟩ => if p = 0 then some (8 * n) else none
  | ⟨.progressAdd delta, _⟩ => if delta.toNat = p then some 0 else none
  | _ => some p

section
variable (t u : List (Event Call.Answer))

@[simp] theorem progressCounter_cons (e : Event Call.Answer) :
    progressCounter (e :: t) = added e + progressCounter t := List.sum_cons

@[simp] theorem progress_nil : progress [] = 0 := rfl

@[simp] theorem progress_cons (e : Event Call.Answer) :
    progress (e :: t) = (added e).toNat + progress t := List.sum_cons

@[simp] theorem progress_append : progress (t ++ u) = progress t + progress u := by
  simp [progress]

theorem progressCounter_eq : progressCounter t = BitVec.ofNat 64 (progress t) := by
  induction t with
  | nil => rfl
  | cons e t ih =>
    rw [progressCounter_cons, progress_cons, ih, BitVec.ofNat_add, BitVec.ofNat_toNat,
      BitVec.setWidth_eq]

end

theorem tally_split {u v : List (Event Call.Answer)} {e : Event Call.Answer} {p q : Nat}
    (h : (u ++ e :: v).foldlM tally p = some q) : ∃ p' p'', u.foldlM tally p = some p' ∧
      tally p' e = some p'' ∧ v.foldlM tally p'' = some q := by
  rw [List.foldlM_append] at h
  obtain ⟨p', front, back⟩ := Option.bind_eq_some_iff.1 h
  rw [List.foldlM_cons] at back
  obtain ⟨p'', step, back⟩ := Option.bind_eq_some_iff.1 back
  exact ⟨p', p'', front, step, back⟩

theorem progressCounter_toNat {t : List (Event Call.Answer)} (fits : progress t < 2 ^ 64) :
    (progressCounter t).toNat = progress t := by
  rw [progressCounter_eq, BitVec.toNat_ofNat, Nat.mod_eq_of_lt fits]

/-- The counter and what is still to be counted are the words gone through. -/
theorem tally_total {p q : Nat} {t : List (Event Call.Answer)} (h : t.foldlM tally p = some q) :
    progress t + q = p + 8 * ((writtenWords t).length + (verifiedWords t).length) := by
  induction t generalizing p with
  | nil =>
    cases h
    simp [writtenWords, verifiedWords]
  | cons e t ih =>
    rw [List.foldlM_cons] at h
    obtain ⟨p', step, rest⟩ := Option.bind_eq_some_iff.1 h
    have later := ih rest
    obtain ⟨c, r⟩ := e
    cases c with
    | writeChunk | verifyChunk =>
      simp only [tally, Option.ite_none_right_eq_some, Option.some.injEq] at step
      obtain ⟨rfl, rfl⟩ := step
      simp only [progress_cons, added, writtenWords_cons, verifiedWords_cons, written, verified,
        List.length_append, List.length_map, List.length_range', List.length_nil]
      have zero : (0 : Word).toNat = 0 := rfl
      omega
    | progressAdd delta =>
      simp only [tally, Option.ite_none_right_eq_some, Option.some.injEq] at step
      obtain ⟨rfl, rfl⟩ := step
      simp only [progress_cons, added, writtenWords_cons, verifiedWords_cons, written, verified,
        List.nil_append]
      omega
    | stopRequested | load | store =>
      cases step
      simpa [added, written, verified] using later

theorem tally_counted {p : Nat} (some_left : p ≠ 0) {t : List (Event Call.Answer)}
    (h : t.foldlM tally p = some 0) :
    ∃ before delta after, t = before ++ ⟨.progressAdd delta, ()⟩ :: after := by
  induction t generalizing p with
  | nil => exact absurd (Option.some.inj h) some_left
  | cons e t ih =>
    rw [List.foldlM_cons] at h
    obtain ⟨p', step, rest⟩ := Option.bind_eq_some_iff.1 h
    obtain ⟨c, r⟩ := e
    cases c with
    | progressAdd delta => exact ⟨[], delta, t, rfl⟩
    | writeChunk | verifyChunk =>
      simp [tally, some_left] at step
    | stopRequested | load | store =>
      cases step
      obtain ⟨before, delta, after, rfl⟩ := ih some_left rest
      exact ⟨_ :: before, delta, after, rfl⟩

/-! ### A pass keeps its tally -/

def Call.Aside : Call → Prop
  | .writeChunk .. | .verifyChunk .. | .progressAdd _ => False
  | _ => True

theorem tally_aside {t : List (Event Call.Answer)} (h : ∀ e ∈ t, e.1.Aside) (p : Nat) :
    t.foldlM tally p = some p := by
  induction t with
  | nil => rfl
  | cons e t ih =>
    have aside := h e List.mem_cons_self
    have step : tally p e = some p := by
      obtain ⟨c, r⟩ := e
      cases c with
      | writeChunk | verifyChunk | progressAdd => exact absurd aside id
      | stopRequested | load | store => rfl
    rw [List.foldlM_cons, step]
    exact ih fun e he => h e (List.mem_cons_of_mem _ he)

theorem nxmtRunnerStopRequested_aside (config : NxmtRunConfig) :
    (nxmtRunnerStopRequested config).Uses Call.Aside := by
  unfold nxmtRunnerStopRequested
  split
  · exact uses_call.2 trivial
  · exact uses_pure _

theorem foldPressure_aside (config : NxmtRunConfig) (p chunk : Nat) (pressure : Word) :
    (foldPressure config p chunk pressure).Uses Call.Aside :=
  foldPressure_loads config (fun _ _ => trivial) pressure

section
variable {start count : Nat} {phase : NxmtPhase} {config : NxmtRunConfig}
  (counting : config.progressBytes = true)
include counting

theorem tally_nxmtProgressAdd {processed : Nat} (more : processed < count)
    {t : List (Event Call.Answer)} {a : Unit} (h : Path (nxmtProgressAdd config
      (BitVec.ofNat 64 (chunkAt count processed) * wordBytes)) t a) :
    t.foldlM tally (8 * chunkAt count processed) = some 0 := by
  have pos := chunkAt_pos more
  have most : chunkAt count processed ≤ checkChunk := by
    unfold chunkAt
    dsimp only
    split <;> omega
  have value := checkChunk_value
  have bytes : (BitVec.ofNat 64 (chunkAt count processed) * wordBytes).toNat =
      8 * chunkAt count processed := by
    have eight : wordBytes.toNat = 8 := rfl
    rw [BitVec.toNat_mul, BitVec.toNat_ofNat, eight]
    omega
  have nonzero : BitVec.ofNat 64 (chunkAt count processed) * wordBytes ≠ 0 := by
    intro zero
    rw [zero] at bytes
    have zero : (0 : Word).toNat = 0 := rfl
    omega
  rw [nxmtProgressAdd, if_pos ⟨counting, nonzero⟩, Runner.progressAdd, path_call] at h
  subst h
  simp [tally, bytes]

theorem tally_turn {processed : Nat} (more : processed < count) {u a b y : List (Event Call.Answer)}
    {stop : Bool} {e : Event Call.Answer} {pressure pressure' : Word} {x : Unit} {low : Nat}
    (hu : Path (nxmtRunnerStopRequested config) u stop)
    (he : tally 0 e = some (8 * chunkAt count processed))
    (ha : Path (foldPressure config low (chunkAt count processed) pressure) a pressure')
    (hb : Path (nxmtProgressAdd config (BitVec.ofNat 64 (chunkAt count processed) * wordBytes)) b x)
    (hy : y.foldlM tally 0 = some 0) : (u ++ e :: (a ++ (b ++ y))).foldlM tally 0 = some 0 := by
  have aside_u := tally_aside (hu.asked (nxmtRunnerStopRequested_aside config)) 0
  have aside_a := tally_aside (ha.asked (foldPressure_aside _ _ _ _)) (8 * chunkAt count processed)
  have added_b := tally_nxmtProgressAdd counting more hb
  simp [List.foldlM_append, List.foldlM_cons, aside_u, he, aside_a, added_b, hy]

theorem tally_writeChunks {processed : Nat} {pressure : Word} {t : List (Event Call.Answer)}
    {out : Bool × Word} (h : Path (writeChunks start count phase config processed pressure) t out) :
    t.foldlM tally 0 = some 0 := by
  induction processed, pressure using writeChunks.induct count generalizing t with
  | case1 processed pressure more ih =>
    rcases path_writeChunks_turn more h with
      ⟨poll, -⟩ | ⟨u, a, b, y, pressure', rfl, poll, fold, added, rest⟩
    · exact tally_aside (poll.asked (nxmtRunnerStopRequested_aside config)) 0
    · exact tally_turn counting more poll rfl fold added (ih pressure' rest)
  | case2 processed pressure done =>
    rw [writeChunks, if_neg done] at h
    obtain ⟨rfl, -⟩ := path_pure.1 h
    rfl

theorem tally_verifyChunks {processed : Nat} {report : NxmtReport} {pressure : Word}
    {t : List (Event Call.Answer)} {out : Bool × NxmtReport × Word}
    (h : Path (verifyChunks start count phase config processed report pressure) t out) :
    t.foldlM tally 0 = some 0 := by
  induction processed, report, pressure using verifyChunks.induct count generalizing t with
  | case1 processed report pressure more ih =>
    rcases path_verifyChunks_turn more h with
      ⟨poll, -⟩ | ⟨u, calls, a, b, y, pressure', rfl, poll, fold, added, rest⟩
    · exact tally_aside (poll.asked (nxmtRunnerStopRequested_aside config)) 0
    · exact tally_turn counting more poll rfl fold added (ih calls pressure' rest)
  | case2 processed report pressure done =>
    rw [verifyChunks, if_neg done] at h
    obtain ⟨rfl, -⟩ := path_pure.1 h
    rfl

theorem tally_nxmtWritePhase {pressure : Word} {t : List (Event Call.Answer)} {out : Bool × Word}
    (h : Path (nxmtWritePhase start count phase config pressure) t out) :
    t.foldlM tally 0 = some 0 := by
  obtain ⟨⟨finished, pressure'⟩, u, v, rfl, hu, hv⟩ := path_bind.1 h
  have aside : ∀ e ∈ v, e.1.Aside := by
    refine hv.asked ?_
    dsimp only
    split
    · exact uses_pure _
    · split
      · exact uses_bind (uses_call.2 trivial) fun _ =>
          uses_bind (uses_call.2 trivial) fun _ => uses_pure _
      · exact uses_pure _
  simp [List.foldlM_append, tally_writeChunks counting hu, tally_aside aside]

theorem tally_runPhases {initialErrors : Word} {phases : List NxmtPhase} {report : NxmtReport}
    {stats : NxmtRunStats} {pressure : Word} {t : List (Event Call.Answer)} {out : PassResult}
    (h : Path (runPhases start count config initialErrors phases report stats pressure) t out) :
    t.foldlM tally 0 = some 0 := by
  induction phases generalizing report stats pressure t with
  | nil =>
    obtain ⟨rfl, -⟩ := path_pure.1 h
    rfl
  | cons phase phases ih =>
    have polled {u : List (Event Call.Answer)} {stop : Bool}
        (poll : Path (nxmtRunnerStopRequested config) u stop) : u.foldlM tally 0 = some 0 :=
      tally_aside (poll.asked (nxmtRunnerStopRequested_aside config)) 0
    cases path_runPhases_turn h with
    | before poll => exact polled poll
    | writing poll writes =>
      simp [List.foldlM_append, polled poll, tally_nxmtWritePhase counting writes]
    | verifying poll writes verifies =>
      simp [List.foldlM_append, polled poll, tally_nxmtWritePhase counting writes,
        tally_verifyChunks counting verifies]
    | on poll writes verifies rest =>
      simp [List.foldlM_append, polled poll, tally_nxmtWritePhase counting writes,
        tally_verifyChunks counting verifies, ih rest]

end

/-! ### A worker at some moment of its pass -/

def LastCounted (phases : List NxmtPhase) (start count : Nat) (u : List (Event Call.Answer)) : Prop :=
  ∃ phase before delta after, phases.getLast? = some phase ∧
    u = before ++ ⟨.progressAdd delta, ()⟩ :: after ∧
    (phase, start + (count - 1)) ∈ verifiedWords before

structure Moment (phases : List NxmtPhase) (start count : Nat) (u : List (Event Call.Answer)) : Prop where
  written_prefix : writtenWords u <+: phaseWords phases start count
  verified_prefix : verifiedWords u <+: phaseWords phases start count
  ordered : VerifiesWritten [] u
  tallied : ∃ q, u.foldlM tally 0 = some q

section
variable {phases : List NxmtPhase} {start count : Nat} {u v : List (Event Call.Answer)}

theorem Moment.of_append (h : Moment phases start count (u ++ v)) : Moment phases start count u := by
  obtain ⟨q, tallied⟩ := h.tallied
  rw [List.foldlM_append] at tallied
  obtain ⟨q', before, -⟩ := Option.bind_eq_some_iff.1 tallied
  refine ⟨?_, ?_, (verifiesWritten_append.1 h.ordered).1, q', before⟩
  · exact (List.prefix_append _ _).trans (writtenWords_append u v ▸ h.written_prefix)
  · exact (List.prefix_append _ _).trans (verifiedWords_append u v ▸ h.verified_prefix)

theorem Moment.progress_le (h : Moment phases start count u) :
    progress u ≤ phases.length * 2 * (8 * count) := by
  obtain ⟨q, tallied⟩ := h.tallied
  have total := tally_total tallied
  have written := h.written_prefix.length_le
  have verified := h.verified_prefix.length_le
  rw [phaseWords_length] at written verified
  have all : phases.length * 2 * (8 * count) = 16 * (phases.length * count) := by ring
  omega

theorem Moment.progress_eq_iff (h : Moment phases start count u) (nodup : phases.Nodup)
    (some_phase : phases ≠ []) : progress u = phases.length * 2 * (8 * count) ↔
      (count ≠ 0 → LastCounted phases start count u) := by
  obtain ⟨q, tallied⟩ := h.tallied
  have total := tally_total tallied
  have all : phases.length * 2 * (8 * count) = 16 * (phases.length * count) := by ring
  have length := phaseWords_length phases start count
  have written_le := h.written_prefix.length_le
  have verified_le := h.verified_prefix.length_le
  rw [all]
  constructor
  · intro full some_words
    obtain ⟨phase, last⟩ := Option.ne_none_iff_exists'.1 (mt List.getLast?_eq_none_iff.1 some_phase)
    have whole : verifiedWords u = phaseWords phases start count :=
      h.verified_prefix.eq_of_length (by omega)
    have counted : q = 0 := by omega
    subst counted
    have mem : (phase, start + (count - 1)) ∈ verifiedWords u := by
      rw [whole]
      exact List.mem_of_getLast? (phaseWords_getLast last start some_words)
    obtain ⟨e, he, hw⟩ := List.mem_flatMap.1 mem
    obtain ⟨a, b, rfl⟩ := List.append_of_mem he
    obtain ⟨c, r⟩ := e
    cases c with
    | verifyChunk p n s phase' config =>
      have pos : n ≠ 0 := by
        rintro rfl
        simp [verified] at hw
      obtain ⟨p', p'', -, step, rest⟩ := tally_split tallied
      simp only [tally, Option.ite_none_right_eq_some, Option.some.injEq] at step
      obtain ⟨before, delta, after, rfl⟩ := tally_counted (by omega) rest
      refine ⟨phase, a ++ ⟨.verifyChunk p n s phase' config, r⟩ :: before, delta, after, last,
        by simp, ?_⟩
      rw [verifiedWords_append, verifiedWords_cons]
      exact List.mem_append_right _ (List.mem_append_left _ hw)
    | stopRequested | writeChunk | load | store | progressAdd =>
      exact absurd hw List.not_mem_nil
  · intro counted
    by_cases some_words : count = 0
    · subst some_words
      omega
    obtain ⟨phase, before, delta, after, last, rfl, mem⟩ := counted some_words
    have ends := phaseWords_getLast last start some_words
    have words_nodup := phaseWords_nodup nodup start count
    have early := h.of_append
    have verified_whole := prefix_of_last words_nodup early.verified_prefix ends mem
    -- what is verified has been written, so the writes are through as well
    have written_mem : (phase, start + (count - 1)) ∈ writtenWords before := by
      have ordered := early.ordered
      obtain ⟨e, he, hw⟩ := List.mem_flatMap.1 mem
      obtain ⟨a, b, rfl⟩ := List.append_of_mem he
      have own := (verifiesWritten_append.1 ordered).2.1 _ hw
      rw [List.nil_append] at own
      rw [writtenWords_append]
      exact List.mem_append_left _ own
    have written_whole := prefix_of_last words_nodup early.written_prefix ends written_mem
    obtain ⟨p, p', front, step, rest⟩ := tally_split tallied
    simp only [tally, Option.ite_none_right_eq_some, Option.some.injEq] at step
    obtain ⟨rfl, rfl⟩ := step
    have before_total := tally_total front
    have after_total := tally_total rest
    simp only [writtenWords_append, verifiedWords_append, List.length_append, writtenWords_cons,
      verifiedWords_cons, written_whole, verified_whole, length, progress_append, progress_cons,
      added, written, verified, List.length_nil] at *
    omega

end

/-! ### What the main thread shows -/

/-- `pass_total_work` -/
def passTotalWork (mode : NxmtMode) (cpuArena : NxmtArena) : Word :=
  let work := BitVec.ofNat 64 (nxmtRunnerPhaseCount mode) * 2 * cpuArena.size
  if work = 0 then 1 else work

/-- `pass_done`: the workers' counters, clamped to the total. -/
def passDone (counters : List Word) (passTotalWork : Word) : Word :=
  let passDone := counters.foldl (· + ·) 0
  if passDone > passTotalWork then passTotalWork else passDone

theorem foldl_counters (counters : List Word) (x : Word) :
    counters.foldl (· + ·) x = x + BitVec.ofNat 64 (counters.map BitVec.toNat).sum := by
  induction counters generalizing x with
  | nil => simp
  | cons c counters ih =>
    rw [List.foldl_cons, ih, List.map_cons, List.sum_cons, BitVec.ofNat_add, BitVec.ofNat_toNat,
      BitVec.setWidth_eq, BitVec.add_assoc]

theorem passDone_toNat {counters : List Word} {total : Word}
    (le : (counters.map BitVec.toNat).sum ≤ total.toNat) :
    passDone counters total = counters.foldl (· + ·) 0 ∧
      (passDone counters total).toNat = (counters.map BitVec.toNat).sum := by
  have value : (counters.foldl (· + ·) 0).toNat = (counters.map BitVec.toNat).sum := by
    rw [foldl_counters, zero_add, BitVec.toNat_ofNat,
      Nat.mod_eq_of_lt (le.trans_lt total.isLt)]
  have quiet : ¬ counters.foldl (· + ·) 0 > total := by
    rw [gt_iff_lt, BitVec.lt_def, value]
    omega
  rw [passDone, if_neg quiet]
  exact ⟨rfl, value⟩

theorem moment_of_path {arena : NxmtArena} {config : NxmtRunConfig} (ok : Accepts arena config)
    (counting : config.progressBytes = true) {report : NxmtReport} {stats : NxmtRunStats}
    {t : List (Event Call.Answer)} {out : PassResult}
    (h : Path (nxmtRunnerRunPass (some arena) (some config) (some report) (some stats)) t out) :
    Moment (nxmtPhasesForMode config.mode) (sliceStart arena config) (sliceCount arena config) t ∧
      t.foldlM tally 0 = some 0 ∧ ∃ n k, PassCounts (sliceStart arena config)
        (sliceCount arena config) (nxmtPhasesForMode config.mode) ⟨0, 0, 0, .fixedA⟩ t out n k := by
  rw [nxmtRunnerRunPass_accepts report stats ok] at h
  have tallied := tally_runPhases counting h
  obtain ⟨n, k, counts⟩ := path_runPhases_counts h
  refine ⟨⟨?_, ?_, runPhases_verifiesWritten h, 0, tallied⟩, tallied, n, k, counts⟩
  · exact counts.written_eq ▸ List.take_prefix _ _
  · exact counts.verified_eq ▸ List.take_prefix _ _

section
variable {base size : Word} (hwords : (nxmtArenaFromRange base size).words ≠ 0)
  (small : 16 * (nxmtArenaFromRange base size).size.toNat < 2 ^ 64)

include small in
theorem phaseBytes_lt (mode : NxmtMode) :
    (nxmtPhasesForMode mode).length * 2 * (nxmtArenaFromRange base size).size.toNat < 2 ^ 64 := by
  refine lt_of_le_of_lt ?_ small
  have le := nxmtPhasesForMode_length_le mode
  exact Nat.mul_le_mul_right _ (by omega)

include hwords

include small in
theorem passTotalWork_toNat (mode : NxmtMode) :
    (passTotalWork mode (nxmtArenaFromRange base size)).toNat =
      (nxmtPhasesForMode mode).length * 2 * (nxmtArenaFromRange base size).size.toNat := by
  have fits := phaseBytes_lt small mode
  have wf := nxmtArenaFromRange_wellFormed hwords
  have some_words : (nxmtArenaFromRange base size).words.toNat ≠ 0 := fun zero =>
    hwords (BitVec.eq_of_toNat_eq zero)
  have some_phase : 0 < (nxmtPhasesForMode mode).length := by
    cases mode <;> decide
  have some_size : 0 < (nxmtArenaFromRange base size).size.toNat := by
    have := wf.words_size
    omega
  have pos := Nat.mul_pos (Nat.mul_pos some_phase Nat.two_pos) some_size
  have le := nxmtPhasesForMode_length_le mode
  have two : (2 : Word).toNat = 2 := rfl
  have work : (BitVec.ofNat 64 (nxmtRunnerPhaseCount mode) * 2 *
      (nxmtArenaFromRange base size).size).toNat =
      (nxmtPhasesForMode mode).length * 2 * (nxmtArenaFromRange base size).size.toNat := by
    rw [BitVec.toNat_mul, BitVec.toNat_mul, BitVec.toNat_ofNat, two, nxmtRunnerPhaseCount,
      Nat.mod_eq_of_lt (show (nxmtPhasesForMode mode).length < 2 ^ 64 by omega),
      Nat.mod_eq_of_lt (show (nxmtPhasesForMode mode).length * 2 < 2 ^ 64 by omega),
      Nat.mod_eq_of_lt fits]
  have nonzero : BitVec.ofNat 64 (nxmtRunnerPhaseCount mode) * 2 *
      (nxmtArenaFromRange base size).size ≠ 0 := by
    intro zero
    rw [zero] at work
    have none : (0 : Word).toNat = 0 := rfl
    omega
  rw [passTotalWork, if_neg nonzero, work]

theorem sum_slices (config : NxmtRunConfig) {W : BitVec 32} (some_worker : W ≠ 0) :
    ∑ i : Fin W.toNat, (nxmtPhasesForMode config.mode).length * 2 *
        (8 * sliceCount (nxmtArenaFromRange base size) (config.forWorker W i)) =
      (nxmtPhasesForMode config.mode).length * 2 * (nxmtArenaFromRange base size).size.toNat := by
  have pos : 0 < W.toNat := by
    rw [Nat.pos_iff_ne_zero]
    exact fun zero => some_worker (BitVec.eq_of_toNat_eq zero)
  have wf := nxmtArenaFromRange_wellFormed hwords
  rw [← Finset.mul_sum, ← Finset.mul_sum]
  have slices : ∀ i : Fin W.toNat,
      sliceCount (nxmtArenaFromRange base size) (config.forWorker W i) =
        Partition.size (nxmtArenaFromRange base size).words.toNat W.toNat i := fun i =>
    (forWorker_slice _ config i.isLt).2
  simp only [slices]
  have blocks := Partition.sum_size (nxmtArenaFromRange base size).words.toNat W.toNat W.toNat
  rw [Partition.start_self pos, ← List.map_coe_finRange_eq_range, List.map_map] at blocks
  rw [Fin.sum_univ_def, ← wf.words_size, Nat.mul_comm _ 8]
  exact congrArg _ (congrArg _ blocks)

end

section
variable {arena : NxmtArena} {config : NxmtRunConfig} (ok : Accepts arena config)
  (room : 16 * (8 * sliceCount arena config) < 2 ^ 64) (counting : config.progressBytes = true)
  {report : NxmtReport} {stats : NxmtRunStats} {t : List (Event Call.Answer)} {out : PassResult}
  (path : Path (nxmtRunnerRunPass (some arena) (some config) (some report) (some stats)) t out)
include ok room counting path

theorem counter_toNat {u : List (Event Call.Answer)} (sub : u <+: t) :
    (progressCounter u).toNat = progress u := by
  obtain ⟨v, rfl⟩ := sub
  have phases := nxmtPhasesForMode_length_le config.mode
  have moment := (moment_of_path ok counting path).1.of_append
  refine progressCounter_toNat (lt_of_le_of_lt moment.progress_le (lt_of_le_of_lt ?_ room))
  exact Nat.mul_le_mul_right _ (by omega)

theorem counter_mono {u v : List (Event Call.Answer)} (before : u <+: v) (sub : v <+: t) :
    (progressCounter u).toNat ≤ (progressCounter v).toNat := by
  rw [counter_toNat ok room counting path sub,
    counter_toNat ok room counting path (before.trans sub)]
  obtain ⟨w, rfl⟩ := before
  rw [progress_append]
  exact Nat.le_add_right _ _

theorem counter_stats : ∃ ran r, out.stats = some ran ∧
    (progressCounter t).toNat = ran.bytesWritten.toNat + ran.bytesVerified.toNat + r ∧
    nxmtMibBytes ∣ r ∧ (r = 0 ∨ r < 8 * sliceCount arena config) ∧ (Quiet t → r = 0) ∧
    (ran.bytesWritten.toNat = ran.bytesVerified.toNat ∨
      ran.bytesWritten.toNat = ran.bytesVerified.toNat + 8 * sliceCount arena config) := by
  obtain ⟨-, tallied, n, k, counts⟩ := moment_of_path ok counting path
  obtain ⟨last, pressure, stats_eq⟩ := counts.bytes
  have phases := nxmtPhasesForMode_length_le config.mode
  have most := counts.most
  have rest := counts.rest
  have halves : ∀ h ≤ 8, ((0 : Word) + BitVec.ofNat 64 h *
      (BitVec.ofNat 64 (sliceCount arena config) * wordBytes)).toNat =
      8 * (sliceCount arena config * h) := by
    intro h le
    have bound := Nat.mul_le_mul_left (sliceCount arena config) le
    rw [zero_add, bytes_toNat (by omega)]
  have parity : (if n % 2 = 0 then k else 0) + (if n % 2 = 1 then k else 0) = k := by
    split <;> split <;> omega
  refine ⟨_, 8 * k, stats_eq, ?_, ?_, ?_, ?_, ?_⟩
  · have total := tally_total tallied
    rw [counts.written_length, counts.verified_length] at total
    rw [counter_toNat ok room counting path List.prefix_rfl, halves _ (by omega),
      halves _ (by omega)]
    omega
  · have mib : nxmtMibBytes = 8 * checkChunk := rfl
    rw [mib]
    exact Nat.mul_dvd_mul_left 8 counts.chunks
  · omega
  · intro quiet
    have whole := counts.quiet_iff.1 quiet
    omega
  · rw [halves _ (by omega), halves _ (by omega)]
    rcases Nat.mod_two_eq_zero_or_one n with even | odd
    · left
      rw [show (n + 1) / 2 = n / 2 by omega]
    · right
      rw [show (n + 1) / 2 = n / 2 + 1 by omega]
      ring

end

theorem scheduled_moment {arena : NxmtArena} {config : NxmtRunConfig} {W : BitVec 32}
    {reports : Fin W.toNat → NxmtReport} {stats : Fin W.toNat → NxmtRunStats} {S : Type}
    {h : Fin W.toNat → (c : Call) → S → Call.Answer c × S} {s : S}
    (counting : config.progressBytes = true) (schedule : List (Fin W.toNat)) {i : Fin W.toNat}
    (ok : Accepts arena (config.forWorker W i))
    (fits : 16 * (8 * sliceCount arena (config.forWorker W i)) < 2 ^ 64) :
    let asked := Pool.eventsOf i
      (Pool.asked h schedule ⟨workerPass arena config W reports stats, s⟩)
    (progressCounter asked).toNat = progress asked ∧
      Moment (nxmtPhasesForMode config.mode) (sliceStart arena (config.forWorker W i))
        (sliceCount arena (config.forWorker W i)) asked := by
  intro asked
  have left := path_trace (h i) ((Pool.runSchedule h schedule
    ⟨workerPass arena config W reports stats, s⟩).progs i) s
  obtain ⟨v, out, path⟩ : ∃ v out, Path (workerPass arena config W reports stats i)
      (asked ++ v) out := ⟨_, _, Pool.path_eventsOf h left⟩
  have counting' : (config.forWorker W i).progressBytes = true := counting
  exact ⟨counter_toNat ok fits counting' path (List.prefix_append _ _),
    (moment_of_path ok counting' path).1.of_append⟩

/-- The counter of one worker never falls and ends at the bytes written and verified and
those of the half that was cut; the counters of all workers together reach the total
of the progress line when all of them have counted their last chunk, and never pass it. -/
theorem progress_accounting {base size : Word} (hbase : (nxmtArenaFromRange base size).base ≠ 0)
    (hwords : (nxmtArenaFromRange base size).words ≠ 0)
    (small : 16 * (nxmtArenaFromRange base size).size.toNat < 2 ^ 64) :
    let arena := nxmtArenaFromRange base size
    (∀ (config : NxmtRunConfig) (report : NxmtReport) (stats : NxmtRunStats)
        (t : List (Event Call.Answer)) (out : PassResult),
      config.workerId < config.workerCount → config.progressBytes = true →
      Path (nxmtRunnerRunPass (some arena) (some config) (some report) (some stats)) t out →
      (∀ u v, u <+: v → v <+: t → (progressCounter u).toNat ≤ (progressCounter v).toNat) ∧
      ∃ ran r, out.stats = some ran ∧
        (progressCounter t).toNat = ran.bytesWritten.toNat + ran.bytesVerified.toNat + r ∧
        nxmtMibBytes ∣ r ∧ (r = 0 ∨ r < 8 * sliceCount arena config) ∧ (Quiet t → r = 0) ∧
        (ran.bytesWritten.toNat = ran.bytesVerified.toNat ∨
          ran.bytesWritten.toNat = ran.bytesVerified.toNat + 8 * sliceCount arena config)) ∧
    ∀ (config : NxmtRunConfig) (W : BitVec 32) (reports : Fin W.toNat → NxmtReport)
        (stats : Fin W.toNat → NxmtRunStats) (S : Type)
        (h : Fin W.toNat → (c : Call) → S → Call.Answer c × S) (s : S)
        (schedule : List (Fin W.toNat)),
      config.progressBytes = true → W ≠ 0 →
      let t := Pool.asked h schedule ⟨workerPass arena config W reports stats, s⟩
      let counter (i : Fin W.toNat) := progressCounter (Pool.eventsOf i t)
      let total := passTotalWork config.mode arena
      total.toNat = nxmtRunnerPhaseCount config.mode * 2 * arena.size.toNat ∧
      ∑ i, (counter i).toNat ≤ total.toNat ∧
      passDone ((List.finRange W.toNat).map counter) total =
        ((List.finRange W.toNat).map counter).foldl (· + ·) 0 ∧
      (passDone ((List.finRange W.toNat).map counter) total).toNat = ∑ i, (counter i).toNat ∧
      (∑ i, (counter i).toNat = total.toNat ↔
        ∀ i : Fin W.toNat, sliceCount arena (config.forWorker W i) ≠ 0 →
          LastCounted (nxmtPhasesForMode config.mode) (sliceStart arena (config.forWorker W i))
            (sliceCount arena (config.forWorker W i)) (Pool.eventsOf i t)) := by
  intro arena
  have wf := nxmtArenaFromRange_wellFormed hwords
  have words : arena.words.toNat * 8 = arena.size.toNat := wf.words_size
  have small' : 16 * arena.size.toNat < 2 ^ 64 := small
  have fits : ∀ {config : NxmtRunConfig}, Accepts arena config →
      16 * (8 * sliceCount arena config) < 2 ^ 64 := by
    intro config ok
    have inside := slice_le ok
    omega
  refine ⟨fun config report stats t out worker counting path => ?_,
    fun config W reports stats S h s schedule counting some_worker => ?_⟩
  · have ok : Accepts arena config := fromRange_accepts hbase hwords worker
    exact ⟨fun u v before sub => counter_mono ok (fits ok) counting path before sub,
      counter_stats ok (fits ok) counting path⟩
  · intro t counter total
    have ok : ∀ i : Fin W.toNat, Accepts arena (config.forWorker W i) := fun i =>
      fromRange_accepts hbase hwords (forWorker_worker i.isLt)
    have value : ∀ i : Fin W.toNat, (counter i).toNat = progress (Pool.eventsOf i t) := fun i =>
      (scheduled_moment counting schedule (ok i) (fits (ok i))).1
    have moment : ∀ i : Fin W.toNat, Moment (nxmtPhasesForMode config.mode)
        (sliceStart arena (config.forWorker W i)) (sliceCount arena (config.forWorker W i))
        (Pool.eventsOf i t) := fun i => (scheduled_moment counting schedule (ok i) (fits (ok i))).2
    have total_eq : total.toNat = _ := passTotalWork_toNat hwords small config.mode
    have slices := sum_slices hwords config some_worker
    rw [← total_eq] at slices
    have each : ∀ i ∈ Finset.univ, (counter i).toNat ≤ (nxmtPhasesForMode config.mode).length * 2 *
        (8 * sliceCount arena (config.forWorker W i)) := fun i _ =>
      (value i).le.trans (moment i).progress_le
    have le : ∑ i, (counter i).toNat ≤ total.toNat := slices ▸ Finset.sum_le_sum each
    have listed : (((List.finRange W.toNat).map counter).map BitVec.toNat).sum =
        ∑ i, (counter i).toNat := by
      rw [List.map_map, Fin.sum_univ_def]
      rfl
    obtain ⟨unclamped, shown⟩ := passDone_toNat (listed.le.trans le)
    refine ⟨total_eq, le, unclamped, shown.trans listed, ?_⟩
    rw [← slices, Finset.sum_eq_sum_iff_of_le each]
    have some_phase : nxmtPhasesForMode config.mode ≠ [] := by
      cases config.mode <;> decide
    constructor
    · intro same i
      have full := same i (Finset.mem_univ i)
      rw [value i] at full
      exact ((moment i).progress_eq_iff (nxmtPhasesForMode_nodup _) some_phase).1 full
    · intro counted i _
      rw [value i]
      exact ((moment i).progress_eq_iff (nxmtPhasesForMode_nodup _) some_phase).2 (counted i)

/-! ### One worker on a page -/

def pageArena : NxmtArena := nxmtArenaFromRange 0x1000 0x1000

def pageConfig : NxmtRunConfig := ⟨.quick, 1, 0, 0, 1, false, false, true⟩

def pageWorker : Fin 1 → Runner PassResult :=
  workerPass pageArena pageConfig 1 (fun _ => zeroReport) fun _ => ⟨0, 0, 0, .fixedA⟩

/-- What it has done after that many calls; the whole pass takes twelve. -/
def pageTurns (turns : Nat) : List (Fin 1 × Event Call.Answer) :=
  Pool.asked (fun _ => calmServe false) (List.replicate turns 0) ⟨pageWorker, ()⟩

theorem progress_accounting_page :
    (∃ ran, (exec (calmServe false) (pageWorker 0) ()).1.stats = some ran ∧
      (progressCounter (trace (calmServe false) (pageWorker 0) ())).toNat =
        ran.bytesWritten.toNat + ran.bytesVerified.toNat) ∧
    LastCounted (nxmtPhasesForMode .quick) 0 512 (Pool.eventsOf 0 (pageTurns 12)) := by
  obtain ⟨one, all⟩ := @progress_accounting 0x1000 0x1000 (by decide) (by decide) (by decide)
  refine ⟨?_, ?_⟩
  · obtain ⟨-, ran, r, stats, total, -, -, none, -⟩ := one (pageConfig.forWorker 1 0) zeroReport
      ⟨0, 0, 0, .fixedA⟩ _ _ (by decide) rfl (path_trace (calmServe false) (pageWorker 0) ())
    rw [none (calmServe_quiet _)] at total
    exact ⟨ran, stats, total⟩
  · obtain ⟨-, -, -, -, full⟩ := all pageConfig 1 (fun _ => zeroReport) (fun _ => ⟨0, 0, 0, .fixedA⟩)
      Unit (fun _ => calmServe false) () (List.replicate 12 (0 : Fin 1)) rfl (by decide)
    exact full.1 (by decide +kernel) (0 : Fin 1) (by decide +kernel)

/-- One call earlier the last chunk is verified, and not yet counted. -/
theorem progress_accounting_uncounted :
    (∀ i : Fin 1, ((.random, 511) : NxmtPhase × Nat) ∈
      verifiedWords (Pool.eventsOf i (pageTurns 11))) ∧
    nxmtPhasesForMode pageConfig.mode = [.fixedA, .address, .random] ∧
    pageArena.words = 512 ∧
    ∑ i : Fin 1, (progressCounter (Pool.eventsOf i (pageTurns 11))).toNat <
      (passTotalWork pageConfig.mode pageArena).toNat := by
  refine ⟨by decide +kernel, rfl, by decide, by decide +kernel⟩

end NxMemTest
