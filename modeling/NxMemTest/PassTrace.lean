import NxMemTest.Runner

/-! What the events of a pass say about its result, whoever answers the calls:
which chunks it touched, what it recorded and where a stop cut it. -/

namespace NxMemTest
open Interaction Program

def recorded : Event Call.Answer → List RecordCall
  | ⟨.verifyChunk .., calls⟩ => calls
  | _ => []

def written : Event Call.Answer → List (NxmtPhase × Nat)
  | ⟨.writeChunk p chunkWords _ phase _ _, _⟩ => (List.range' p chunkWords).map (phase, ·)
  | _ => []

def verified : Event Call.Answer → List (NxmtPhase × Nat)
  | ⟨.verifyChunk p chunkWords _ phase _, _⟩ => (List.range' p chunkWords).map (phase, ·)
  | _ => []

def stopSeen : Event Call.Answer → Bool
  | ⟨.stopRequested, stop⟩ => stop
  | _ => false

def records (t : List (Event Call.Answer)) : List RecordCall := t.flatMap recorded
def writtenWords (t : List (Event Call.Answer)) : List (NxmtPhase × Nat) := t.flatMap written
def verifiedWords (t : List (Event Call.Answer)) : List (NxmtPhase × Nat) := t.flatMap verified

def Quiet (t : List (Event Call.Answer)) : Prop := ∀ e ∈ t, stopSeen e = false

/-- The last event is the first poll answered true. -/
def Cut (t : List (Event Call.Answer)) : Prop :=
  ∃ u, t = u ++ [⟨.stopRequested, true⟩] ∧ Quiet u

def Ends (finished : Bool) (t : List (Event Call.Answer)) : Prop :=
  if finished then Quiet t else Cut t

section
variable (t u : List (Event Call.Answer))

@[simp] theorem records_append : records (t ++ u) = records t ++ records u := List.flatMap_append
@[simp] theorem writtenWords_append :
    writtenWords (t ++ u) = writtenWords t ++ writtenWords u := List.flatMap_append
@[simp] theorem verifiedWords_append :
    verifiedWords (t ++ u) = verifiedWords t ++ verifiedWords u := List.flatMap_append

@[simp] theorem records_cons (e : Event Call.Answer) :
    records (e :: t) = recorded e ++ records t := List.flatMap_cons
@[simp] theorem writtenWords_cons (e : Event Call.Answer) :
    writtenWords (e :: t) = written e ++ writtenWords t := List.flatMap_cons
@[simp] theorem verifiedWords_cons (e : Event Call.Answer) :
    verifiedWords (e :: t) = verified e ++ verifiedWords t := List.flatMap_cons

@[simp] theorem quiet_nil : Quiet [] := by simp [Quiet]

@[simp] theorem quiet_cons (e : Event Call.Answer) :
    Quiet (e :: t) ↔ stopSeen e = false ∧ Quiet t := by
  simp only [Quiet, List.forall_mem_cons]

@[simp] theorem quiet_append : Quiet (t ++ u) ↔ Quiet t ∧ Quiet u := by
  simp only [Quiet, List.mem_append, or_imp, forall_and]

end

theorem Cut.not_quiet {t : List (Event Call.Answer)} (h : Cut t) : ¬ Quiet t := by
  obtain ⟨u, rfl, -⟩ := h
  intro quiet
  have last := quiet ⟨.stopRequested, true⟩ (by simp)
  exact absurd last (by decide)

theorem Ends.append {finished : Bool} {t u : List (Event Call.Answer)} (ht : Quiet t)
    (hu : Ends finished u) : Ends finished (t ++ u) := by
  cases finished with
  | true => exact (quiet_append t u).2 ⟨ht, hu⟩
  | false =>
    obtain ⟨v, rfl, hv⟩ := hu
    exact ⟨t ++ v, by rw [List.append_assoc], (quiet_append t v).2 ⟨ht, hv⟩⟩

def Call.Plain : Call → Prop
  | .stopRequested | .writeChunk .. | .verifyChunk .. => False
  | _ => True

theorem plain_silent {t : List (Event Call.Answer)} (h : ∀ e ∈ t, e.1.Plain) :
    records t = [] ∧ writtenWords t = [] ∧ verifiedWords t = [] ∧ Quiet t := by
  have each : ∀ e ∈ t, recorded e = [] ∧ written e = [] ∧ verified e = [] ∧
      stopSeen e = false := by
    intro e he
    have plain := h e he
    obtain ⟨c, r⟩ := e
    cases c with
    | stopRequested | writeChunk | verifyChunk => exact absurd plain id
    | load | store | progressAdd => exact ⟨rfl, rfl, rfl, rfl⟩
  refine ⟨?_, ?_, ?_, fun e he => (each e he).2.2.2⟩
  · exact List.flatMap_eq_nil_iff.2 fun e he => (each e he).1
  · exact List.flatMap_eq_nil_iff.2 fun e he => (each e he).2.1
  · exact List.flatMap_eq_nil_iff.2 fun e he => (each e he).2.2.1

theorem foldPressure_loads {A : Call → Prop} (config : NxmtRunConfig) {p chunk : Nat}
    (loads : ∀ k < chunk, A (.load (p + k))) (pressure : Word) :
    (foldPressure config p chunk pressure).Uses A := by
  unfold foldPressure
  split
  · refine uses_foldlM_mem (fun pressure k hk => ?_) _
    exact uses_bind (uses_call.2 (loads k (List.mem_range.1 hk))) fun _ => uses_pure _
  · exact uses_pure _

theorem foldPressure_plain (config : NxmtRunConfig) (p chunk : Nat) (pressure : Word) :
    (foldPressure config p chunk pressure).Uses Call.Plain :=
  foldPressure_loads config (fun _ _ => trivial) pressure

theorem nxmtProgressAdd_plain (config : NxmtRunConfig) (delta : Word) :
    (nxmtProgressAdd config delta).Uses Call.Plain := by
  unfold nxmtProgressAdd
  split
  · exact uses_call.2 trivial
  · exact uses_pure _

theorem path_stopRequested {config : NxmtRunConfig} {t : List (Event Call.Answer)} {stop : Bool}
    (h : Path (nxmtRunnerStopRequested config) t stop) :
    records t = [] ∧ writtenWords t = [] ∧ verifiedWords t = [] ∧ Ends (!stop) t := by
  unfold nxmtRunnerStopRequested at h
  split at h
  · rw [Runner.pollStop, path_call] at h
    subst h
    refine ⟨rfl, rfl, rfl, ?_⟩
    cases stop with
    | true => exact ⟨[], rfl, quiet_nil⟩
    | false => simp [Ends, Quiet, stopSeen]
  · obtain ⟨rfl, rfl⟩ := path_pure.1 h
    exact ⟨rfl, rfl, rfl, quiet_nil⟩

/-! ### The chunk loops -/

theorem range'_chunk {start count processed : Nat} (h : processed < count) :
    List.range' (start + processed) (count - processed) =
      List.range' (start + processed) (chunkAt count processed) ++
        List.range' (start + (processed + chunkAt count processed))
          (count - (processed + chunkAt count processed)) := by
  have le := chunkAt_le (Nat.le_of_lt h)
  rw [← Nat.add_assoc, List.range'_append_1]
  congr 1
  omega

/-- Of the `left` words of a chunk loop `n` are done: all of them, or, when a poll cuts
it, whole chunks but not all. -/
structure LoopRan (left n : Nat) (finished : Bool) : Prop where
  whole : finished = true → n = left
  cut : finished = false → n < left ∧ checkChunk ∣ n

theorem LoopRan.le {left n : Nat} {finished : Bool} (h : LoopRan left n finished) : n ≤ left := by
  cases finished with
  | true => exact Nat.le_of_eq (h.whole rfl)
  | false => exact Nat.le_of_lt (h.cut rfl).1

theorem loopRan_cut {left : Nat} (more : 0 < left) : LoopRan left 0 false :=
  ⟨by simp, fun _ => ⟨more, Nat.dvd_zero _⟩⟩

theorem loopRan_whole (left : Nat) : LoopRan left left true := ⟨fun _ => rfl, by simp⟩

theorem LoopRan.turn {count processed n : Nat} {finished : Bool} (more : processed < count)
    (h : LoopRan (count - (processed + chunkAt count processed)) n finished) :
    LoopRan (count - processed) (chunkAt count processed + n) finished := by
  have le := chunkAt_le (Nat.le_of_lt more)
  constructor
  · intro whole
    have := h.whole whole
    omega
  · intro cut
    obtain ⟨lt, chunks⟩ := h.cut cut
    have full : chunkAt count processed = checkChunk := by
      unfold chunkAt at lt le ⊢
      dsimp only at lt le ⊢
      split
      · rename_i last
        rw [if_pos last] at lt
        omega
      · rfl
    exact ⟨by omega, by rw [full]; exact Nat.dvd_add (Nat.dvd_refl _) chunks⟩

theorem words_append (phase : NxmtPhase) (start n m : Nat) :
    (List.range' start (n + m)).map (phase, ·) =
      (List.range' start n).map (phase, ·) ++ (List.range' (start + n) m).map (phase, ·) := by
  rw [← List.map_append, List.range'_append_1]

theorem words_initial (phase : NxmtPhase) (start : Nat) {n count : Nat} (le : n ≤ count) :
    (List.range' start n).map (phase, ·) <+: (List.range' start count).map (phase, ·) := by
  obtain ⟨m, rfl⟩ := Nat.le.dest le
  rw [words_append]
  exact List.prefix_append _ _

/-- One turn of a chunk loop: of the poll, the chunk, the fold and the progress,
only the chunk shows. -/
theorem flatMap_turn {β : Type} (f : Event Call.Answer → List β)
    {u a b : List (Event Call.Answer)} (hu : u.flatMap f = []) (ha : a.flatMap f = [])
    (hb : b.flatMap f = []) (e : Event Call.Answer) (y : List (Event Call.Answer)) :
    (u ++ e :: (a ++ (b ++ y))).flatMap f = f e ++ y.flatMap f := by
  simp [hu, ha, hb]

section
variable {start count : Nat} {phase : NxmtPhase} {config : NxmtRunConfig} {processed : Nat}
  {pressure : Word} {t : List (Event Call.Answer)}

theorem path_writeChunks_turn (more : processed < count) {out : Bool × Word}
    (h : Path (writeChunks start count phase config processed pressure) t out) :
    Path (nxmtRunnerStopRequested config) t true ∧ out = (false, pressure) ∨
      ∃ u a b y pressure', t = u ++ ⟨.writeChunk (start + processed) (chunkAt count processed)
          (start + processed) phase config.seed config.pass, ()⟩ :: (a ++ (b ++ y)) ∧
        Path (nxmtRunnerStopRequested config) u false ∧
        Path (foldPressure config (start + processed) (chunkAt count processed) pressure) a
          pressure' ∧
        Path (nxmtProgressAdd config (BitVec.ofNat 64 (chunkAt count processed) * wordBytes)) b () ∧
        Path (writeChunks start count phase config (processed + chunkAt count processed) pressure')
          y out := by
  rw [writeChunks, if_pos more] at h
  obtain ⟨stop, u, v, rfl, poll, hv⟩ := path_bind.1 h
  cases stop with
  | true =>
    obtain ⟨rfl, rfl⟩ := path_pure.1 hv
    rw [List.append_nil]
    exact .inl ⟨poll, rfl⟩
  | false =>
    simp only [Bool.false_eq_true, if_false] at hv
    obtain ⟨_, w, rfl, hw⟩ := path_call_bind.1 hv
    obtain ⟨pressure', a, x, rfl, fold, hx⟩ := path_bind.1 hw
    obtain ⟨_, b, y, rfl, added, rest⟩ := path_bind.1 hx
    exact .inr ⟨u, a, b, y, pressure', rfl, poll, fold, added, rest⟩

theorem path_verifyChunks_turn (more : processed < count) {report : NxmtReport}
    {out : Bool × NxmtReport × Word}
    (h : Path (verifyChunks start count phase config processed report pressure) t out) :
    Path (nxmtRunnerStopRequested config) t true ∧ out = (false, report, pressure) ∨
      ∃ u calls a b y pressure', t = u ++ ⟨.verifyChunk (start + processed)
          (chunkAt count processed) (start + processed) phase config, calls⟩ :: (a ++ (b ++ y)) ∧
        Path (nxmtRunnerStopRequested config) u false ∧
        Path (foldPressure config (start + processed) (chunkAt count processed) pressure) a
          pressure' ∧
        Path (nxmtProgressAdd config (BitVec.ofNat 64 (chunkAt count processed) * wordBytes)) b () ∧
        Path (verifyChunks start count phase config (processed + chunkAt count processed)
          (report.recordAll calls) pressure') y out := by
  rw [verifyChunks, if_pos more] at h
  obtain ⟨stop, u, v, rfl, poll, hv⟩ := path_bind.1 h
  cases stop with
  | true =>
    obtain ⟨rfl, rfl⟩ := path_pure.1 hv
    rw [List.append_nil]
    exact .inl ⟨poll, rfl⟩
  | false =>
    simp only [Bool.false_eq_true, if_false] at hv
    obtain ⟨calls, w, rfl, hw⟩ := path_call_bind.1 hv
    obtain ⟨pressure', a, x, rfl, fold, hx⟩ := path_bind.1 hw
    obtain ⟨_, b, y, rfl, added, rest⟩ := path_bind.1 hx
    exact .inr ⟨u, calls, a, b, y, pressure', rfl, poll, fold, added, rest⟩

theorem Ends.turn {finished : Bool} {u a b y : List (Event Call.Answer)} (hu : Quiet u)
    {e : Event Call.Answer} (he : stopSeen e = false) (ha : Quiet a) (hb : Quiet b)
    (hy : Ends finished y) : Ends finished (u ++ e :: (a ++ (b ++ y))) := by
  have quiet_e : Quiet [e] := by simpa using he
  exact .append hu (.append quiet_e (.append ha (.append hb hy)))

theorem path_writeChunks {out : Bool × Word}
    (h : Path (writeChunks start count phase config processed pressure) t out) :
    records t = [] ∧ verifiedWords t = [] ∧ Ends out.1 t ∧
      ∃ n, LoopRan (count - processed) n out.1 ∧
        writtenWords t = (List.range' (start + processed) n).map (phase, ·) := by
  induction processed, pressure using writeChunks.induct count generalizing t with
  | case1 processed pressure more ih =>
    rcases path_writeChunks_turn more h with
      ⟨poll, rfl⟩ | ⟨u, a, b, y, pressure', rfl, poll, fold, added, rest⟩
    · obtain ⟨records_t, written_t, verified_t, cut⟩ := path_stopRequested poll
      exact ⟨records_t, verified_t, cut, 0, loopRan_cut (Nat.sub_pos_of_lt more), written_t⟩
    · obtain ⟨records_u, written_u, verified_u, quiet_u⟩ := path_stopRequested poll
      obtain ⟨records_a, written_a, verified_a, quiet_a⟩ :=
        plain_silent (fold.asked (foldPressure_plain _ _ _ _))
      obtain ⟨records_b, written_b, verified_b, quiet_b⟩ :=
        plain_silent (added.asked (nxmtProgressAdd_plain _ _))
      obtain ⟨records_y, verified_y, ends_y, n, ran_y, written_y⟩ := ih pressure' rest
      refine ⟨?_, ?_, ?_, chunkAt count processed + n, ran_y.turn more, ?_⟩
      · exact (flatMap_turn recorded records_u records_a records_b _ y).trans records_y
      · exact (flatMap_turn verified verified_u verified_a verified_b _ y).trans verified_y
      · exact Ends.turn quiet_u rfl quiet_a quiet_b ends_y
      · rw [words_append, Nat.add_assoc, ← written_y]
        exact flatMap_turn written written_u written_a written_b _ y
  | case2 processed pressure done =>
    rw [writeChunks, if_neg done] at h
    obtain ⟨rfl, rfl⟩ := path_pure.1 h
    rw [Nat.sub_eq_zero_of_le (Nat.le_of_not_lt done)]
    exact ⟨rfl, rfl, quiet_nil, 0, loopRan_whole 0, rfl⟩

theorem path_verifyChunks {report : NxmtReport} {out : Bool × NxmtReport × Word}
    (h : Path (verifyChunks start count phase config processed report pressure) t out) :
    out.2.1 = report.recordAll (records t) ∧ writtenWords t = [] ∧ Ends out.1 t ∧
      ∃ n, LoopRan (count - processed) n out.1 ∧
        verifiedWords t = (List.range' (start + processed) n).map (phase, ·) := by
  induction processed, report, pressure using verifyChunks.induct count generalizing t with
  | case1 processed report pressure more ih =>
    rcases path_verifyChunks_turn more h with
      ⟨poll, rfl⟩ | ⟨u, calls, a, b, y, pressure', rfl, poll, fold, added, rest⟩
    · obtain ⟨records_t, written_t, verified_t, cut⟩ := path_stopRequested poll
      exact ⟨by simp [records_t], written_t, cut, 0, loopRan_cut (Nat.sub_pos_of_lt more),
        verified_t⟩
    · obtain ⟨records_u, written_u, verified_u, quiet_u⟩ := path_stopRequested poll
      obtain ⟨records_a, written_a, verified_a, quiet_a⟩ :=
        plain_silent (fold.asked (foldPressure_plain _ _ _ _))
      obtain ⟨records_b, written_b, verified_b, quiet_b⟩ :=
        plain_silent (added.asked (nxmtProgressAdd_plain _ _))
      obtain ⟨report_y, written_y, ends_y, n, ran_y, verified_y⟩ := ih calls pressure' rest
      refine ⟨?_, ?_, ?_, chunkAt count processed + n, ran_y.turn more, ?_⟩
      · have turn := flatMap_turn recorded records_u records_a records_b
          ⟨.verifyChunk (start + processed) (chunkAt count processed) (start + processed) phase
            config, calls⟩ y
        rw [report_y, ← NxmtReport.recordAll_append]
        exact congrArg report.recordAll turn.symm
      · exact (flatMap_turn written written_u written_a written_b _ y).trans written_y
      · exact Ends.turn quiet_u rfl quiet_a quiet_b ends_y
      · rw [words_append, Nat.add_assoc, ← verified_y]
        exact flatMap_turn verified verified_u verified_a verified_b _ y
  | case2 processed report pressure done =>
    rw [verifyChunks, if_neg done] at h
    obtain ⟨rfl, rfl⟩ := path_pure.1 h
    rw [Nat.sub_eq_zero_of_le (Nat.le_of_not_lt done)]
    exact ⟨rfl, rfl, quiet_nil, 0, loopRan_whole 0, rfl⟩

end

/-! ### Phases -/

theorem path_nxmtWritePhase {start count : Nat} {phase : NxmtPhase} {config : NxmtRunConfig}
    {pressure : Word} {t : List (Event Call.Answer)} {out : Bool × Word}
    (h : Path (nxmtWritePhase start count phase config pressure) t out) :
    records t = [] ∧ verifiedWords t = [] ∧ Ends out.1 t ∧
      ∃ n, LoopRan count n out.1 ∧ writtenWords t = (List.range' start n).map (phase, ·) := by
  obtain ⟨⟨done, pressure'⟩, u, v, rfl, hu, hv⟩ := path_bind.1 h
  obtain ⟨records_u, verified_u, ends_u, n, ran_u, written_u⟩ := path_writeChunks hu
  cases done with
  | false =>
    obtain ⟨rfl, rfl⟩ := path_pure.1 hv
    exact ⟨by simp [records_u], by simp [verified_u], by simpa using ends_u, n, ran_u,
      by simp [written_u]⟩
  | true =>
    have plain : ∀ e ∈ v, e.1.Plain := by
      refine hv.asked ?_
      simp only [Bool.not_true, Bool.false_eq_true, if_false]
      split
      · exact uses_bind (uses_call.2 trivial) fun _ =>
          uses_bind (uses_call.2 trivial) fun _ => uses_pure _
      · exact uses_pure _
    have done : out.1 = true := by
      simp only [Bool.not_true, Bool.false_eq_true, if_false] at hv
      split at hv
      · obtain ⟨_, w, rfl, hw⟩ := path_call_bind.1 hv
        obtain ⟨_, x, rfl, hx⟩ := path_call_bind.1 hw
        rw [(path_pure.1 hx).2]
      · rw [(path_pure.1 hv).2]
    obtain ⟨records_v, written_v, verified_v, quiet_v⟩ := plain_silent plain
    refine ⟨by simp [records_u, records_v], by simp [verified_u, verified_v], ?_, n, ?_, ?_⟩
    · rw [done]
      exact Ends.append ends_u quiet_v
    · rw [done]
      exact ran_u
    · simp [written_u, written_v]

def phaseWords (phases : List NxmtPhase) (start count : Nat) : List (NxmtPhase × Nat) :=
  phases.flatMap fun phase => (List.range' start count).map (phase, ·)

theorem phaseWords_length (phases : List NxmtPhase) (start count : Nat) :
    (phaseWords phases start count).length = phases.length * count := by
  simp [phaseWords, List.length_flatMap]

@[simp] theorem mem_phaseWords {phases : List NxmtPhase} {start count w : Nat} {phase : NxmtPhase} :
    (phase, w) ∈ phaseWords phases start count ↔
      phase ∈ phases ∧ start ≤ w ∧ w < start + count := by
  simp [phaseWords, List.mem_range'_1]

def verdict (report : NxmtReport) (initialErrors : Word) (finished : Bool) : NxmtStatus :=
  if report.errorCount ≠ initialErrors then .fail else if finished then .pass else .aborted

/-- What the phase loop did over the events `t`; `finished` says that no poll cut it. -/
structure PhasesRan (start count : Nat) (initialErrors : Word) (phases : List NxmtPhase)
    (report : NxmtReport) (stats : NxmtRunStats) (t : List (Event Call.Answer))
    (out : PassResult) (finished : Bool) : Prop where
  ends : Ends finished t
  report_eq : out.report = some (report.recordAll (records t))
  status_eq : out.status = verdict (report.recordAll (records t)) initialErrors finished
  verified_prefix : verifiedWords t <+: phaseWords phases start count
  written_all : finished = true → writtenWords t = phaseWords phases start count
  verified_all : finished = true → verifiedWords t = phaseWords phases start count
  bytes : finished = true → ∃ last pressure, out.stats = some
    ⟨stats.bytesWritten + BitVec.ofNat 64 phases.length * (BitVec.ofNat 64 count * wordBytes),
      stats.bytesVerified + BitVec.ofNat 64 phases.length * (BitVec.ofNat 64 count * wordBytes),
      pressure, last⟩

theorem verdict_finished (report : NxmtReport) (initialErrors : Word) :
    verdict report initialErrors true = if report.errorCount ≠ initialErrors then .fail else .pass :=
  rfl

theorem bytes_turn (x bytes : Word) (n : Nat) :
    x + bytes + BitVec.ofNat 64 n * bytes = x + BitVec.ofNat 64 (n + 1) * bytes := by
  rw [Nat.add_comm, BitVec.ofNat_add, BitVec.add_mul, BitVec.one_mul, BitVec.add_assoc]

/-- How a turn of the phase loop goes: a poll cuts it before its halves or in one of
them, or the loop goes on with the phases after it. -/
inductive PhaseTurn (start count : Nat) (config : NxmtRunConfig) (initialErrors : Word)
    (phase : NxmtPhase) (phases : List NxmtPhase) (report : NxmtReport) (stats : NxmtRunStats)
    (pressure : Word) : List (Event Call.Answer) → PassResult → Prop
  | before {u : List (Event Call.Answer)} (poll : Path (nxmtRunnerStopRequested config) u true) :
      PhaseTurn start count config initialErrors phase phases report stats pressure u
        (finishPass (nxmtRunnerAbortStatus report initialErrors) report stats pressure)
  | writing {u a : List (Event Call.Answer)} {pressure' : Word}
      (poll : Path (nxmtRunnerStopRequested config) u false)
      (writes : Path (nxmtWritePhase start count phase config pressure) a (false, pressure')) :
      PhaseTurn start count config initialErrors phase phases report stats pressure (u ++ a)
        (finishPass (nxmtRunnerAbortStatus report initialErrors) report
          { stats with currentPhase := phase } pressure')
  | verifying {u a b : List (Event Call.Answer)} {pressure' pressure'' : Word}
      {report' : NxmtReport} (poll : Path (nxmtRunnerStopRequested config) u false)
      (writes : Path (nxmtWritePhase start count phase config pressure) a (true, pressure'))
      (verifies : Path (nxmtVerifyPhase start count phase config report pressure') b
        (false, report', pressure'')) :
      PhaseTurn start count config initialErrors phase phases report stats pressure (u ++ (a ++ b))
        (finishPass (nxmtRunnerAbortStatus report' initialErrors) report'
          { stats with
            bytesWritten := stats.bytesWritten + BitVec.ofNat 64 count * wordBytes
            currentPhase := phase } pressure'')
  | on {u a b y : List (Event Call.Answer)} {pressure' pressure'' : Word} {report' : NxmtReport}
      {out : PassResult} (poll : Path (nxmtRunnerStopRequested config) u false)
      (writes : Path (nxmtWritePhase start count phase config pressure) a (true, pressure'))
      (verifies : Path (nxmtVerifyPhase start count phase config report pressure') b
        (true, report', pressure''))
      (rest : Path (runPhases start count config initialErrors phases report'
        { stats with
          bytesWritten := stats.bytesWritten + BitVec.ofNat 64 count * wordBytes
          bytesVerified := stats.bytesVerified + BitVec.ofNat 64 count * wordBytes
          currentPhase := phase } pressure'') y out) :
      PhaseTurn start count config initialErrors phase phases report stats pressure
        (u ++ (a ++ (b ++ y))) out

theorem path_runPhases_turn {start count : Nat} {config : NxmtRunConfig} {initialErrors : Word}
    {phase : NxmtPhase} {phases : List NxmtPhase} {report : NxmtReport} {stats : NxmtRunStats}
    {pressure : Word} {t : List (Event Call.Answer)} {out : PassResult}
    (h : Path (runPhases start count config initialErrors (phase :: phases) report stats pressure) t
      out) : PhaseTurn start count config initialErrors phase phases report stats pressure t out := by
  obtain ⟨stop, u, v, rfl, hu, hv⟩ := path_bind.1 h
  cases stop with
  | true =>
    obtain ⟨rfl, rfl⟩ := path_pure.1 hv
    rw [List.append_nil]
    exact .before hu
  | false =>
    simp only [Bool.false_eq_true, if_false] at hv
    obtain ⟨⟨written, pressure'⟩, a, x, rfl, ha, hx⟩ := path_bind.1 hv
    cases written with
    | false =>
      obtain ⟨rfl, rfl⟩ := path_pure.1 hx
      rw [List.append_nil]
      exact .writing hu ha
    | true =>
      simp only [Bool.not_true, Bool.false_eq_true, if_false] at hx
      obtain ⟨⟨verified, report', pressure''⟩, b, y, rfl, hb, hy⟩ := path_bind.1 hx
      cases verified with
      | false =>
        obtain ⟨rfl, rfl⟩ := path_pure.1 hy
        rw [List.append_nil]
        exact .verifying hu ha hb
      | true =>
        simp only [Bool.not_true, Bool.false_eq_true, if_false] at hy
        exact .on hu ha hb hy

theorem path_nxmtVerifyPhase {start count : Nat} {phase : NxmtPhase} {config : NxmtRunConfig}
    {report : NxmtReport} {pressure : Word} {t : List (Event Call.Answer)}
    {out : Bool × NxmtReport × Word}
    (h : Path (nxmtVerifyPhase start count phase config report pressure) t out) :
    out.2.1 = report.recordAll (records t) ∧ writtenWords t = [] ∧ Ends out.1 t ∧
      ∃ n, LoopRan count n out.1 ∧ verifiedWords t = (List.range' start n).map (phase, ·) := by
  have verifies := path_verifyChunks h
  rwa [Nat.add_zero, Nat.sub_zero] at verifies

theorem path_runPhases {start count : Nat} {config : NxmtRunConfig} {initialErrors : Word}
    {phases : List NxmtPhase} {report : NxmtReport} {stats : NxmtRunStats} {pressure : Word}
    {t : List (Event Call.Answer)} {out : PassResult}
    (h : Path (runPhases start count config initialErrors phases report stats pressure) t out) :
    ∃ finished, PhasesRan start count initialErrors phases report stats t out finished := by
  induction phases generalizing report stats pressure t with
  | nil =>
    obtain ⟨rfl, rfl⟩ := path_pure.1 h
    exact ⟨true, quiet_nil, rfl, rfl, List.nil_prefix, fun _ => rfl, fun _ => rfl,
      fun _ => ⟨stats.currentPhase, pressure, by simp [finishPass]⟩⟩
  | cons phase phases ih =>
    have cut : ∀ (t : List (Event Call.Answer)) (report' : NxmtReport) (stats' : NxmtRunStats)
        (pressure' : Word), Ends false t → report' = report.recordAll (records t) →
        verifiedWords t <+: (List.range' start count).map (phase, ·) →
        ∃ finished, PhasesRan start count initialErrors (phase :: phases) report stats t
          (finishPass (nxmtRunnerAbortStatus report' initialErrors) report' stats' pressure')
          finished := by
      rintro t report' stats' pressure' ends rfl sub
      refine ⟨false, ends, rfl, rfl, ?_, by simp, by simp, by simp⟩
      exact sub.trans (List.prefix_append _ _)
    cases path_runPhases_turn h with
    | before poll =>
      obtain ⟨records_u, -, verified_u, ends_u⟩ := path_stopRequested poll
      exact cut _ _ _ _ ends_u (by simp [records_u]) (by simp [verified_u])
    | writing poll writes =>
      obtain ⟨records_u, -, verified_u, ends_u⟩ := path_stopRequested poll
      obtain ⟨records_a, verified_a, ends_a, -⟩ := path_nxmtWritePhase writes
      exact cut _ _ _ _ (Ends.append ends_u ends_a) (by simp [records_u, records_a])
        (by simp [verified_u, verified_a])
    | verifying poll writes verifies =>
      obtain ⟨records_u, -, verified_u, ends_u⟩ := path_stopRequested poll
      obtain ⟨records_a, verified_a, ends_a, -⟩ := path_nxmtWritePhase writes
      obtain ⟨report_b, -, ends_b, n, ran_b, verified_b⟩ := path_nxmtVerifyPhase verifies
      exact cut _ _ _ _ (Ends.append ends_u (Ends.append ends_a ends_b))
        (by simpa [records_u, records_a] using report_b)
        (by simpa [verified_u, verified_a, verified_b] using words_initial phase start ran_b.le)
    | on poll writes verifies rest =>
      obtain ⟨records_u, written_u, verified_u, ends_u⟩ := path_stopRequested poll
      obtain ⟨records_a, verified_a, ends_a, n, ran_a, written_a⟩ := path_nxmtWritePhase writes
      obtain ⟨report_b, written_b, ends_b, n', ran_b, verified_b⟩ := path_nxmtVerifyPhase verifies
      obtain ⟨finished, ran⟩ := ih rest
      dsimp only at report_b
      subst report_b
      rw [ran_a.whole rfl] at written_a
      rw [ran_b.whole rfl] at verified_b
      refine ⟨finished, ?_, ?_, ?_, ?_, ?_, ?_, ?_⟩
      · exact Ends.append ends_u (Ends.append ends_a (Ends.append ends_b ran.ends))
      · rw [ran.report_eq]
        simp [records_u, records_a, NxmtReport.recordAll_append]
      · rw [ran.status_eq]
        simp [records_u, records_a, NxmtReport.recordAll_append]
      · simp only [verifiedWords_append, verified_u, verified_a, verified_b, phaseWords,
          List.flatMap_cons, List.nil_append, List.prefix_append_right_inj]
        exact ran.verified_prefix
      · intro whole
        simp only [writtenWords_append, written_u, written_a, written_b, ran.written_all whole,
          phaseWords, List.flatMap_cons, List.nil_append]
      · intro whole
        simp only [verifiedWords_append, verified_u, verified_a, verified_b,
          ran.verified_all whole, phaseWords, List.flatMap_cons, List.nil_append]
      · intro whole
        obtain ⟨last, pressure, stats_eq⟩ := ran.bytes whole
        refine ⟨last, pressure, ?_⟩
        rw [stats_eq, List.length_cons]
        simp only [bytes_turn]

theorem PhasesRan.fail_iff {start count : Nat} {phases : List NxmtPhase} {report : NxmtReport}
    {stats : NxmtRunStats} {t : List (Event Call.Answer)} {out : PassResult} {finished : Bool}
    (ran : PhasesRan start count report.errorCount phases report stats t out finished)
    (few : (records t).length < 2 ^ 64) : out.status = .fail ↔ records t ≠ [] := by
  rw [ran.status_eq]
  simp only [verdict, ne_eq, NxmtReport.recordAll_errorCount_eq report few]
  by_cases none : records t = []
  · cases finished <;> simp [none]
  · simp [none]

/-! ### The whole pass -/

structure Accepts (arena : NxmtArena) (config : NxmtRunConfig) : Prop where
  base : arena.base ≠ 0
  words : arena.words ≠ 0
  workers : config.workerCount ≠ 0
  worker : config.workerId < config.workerCount
  aligned : arena.base % 8 = 0

def sliceStart (arena : NxmtArena) (config : NxmtRunConfig) : Nat :=
  (nxmtSplitBlockStart arena.words config.workerCount config.workerId).toNat

def sliceCount (arena : NxmtArena) (config : NxmtRunConfig) : Nat :=
  (nxmtSplitBlockSize arena.words config.workerCount config.workerId).toNat

section
variable {arena : NxmtArena} {config : NxmtRunConfig} (report : NxmtReport) (stats : NxmtRunStats)

theorem nxmtRunnerRunPass_accepts (ok : Accepts arena config) :
    nxmtRunnerRunPass (some arena) (some config) (some report) (some stats) =
      runPhases (sliceStart arena config) (sliceCount arena config) config report.errorCount
        (nxmtPhasesForMode config.mode) report ⟨0, 0, 0, .fixedA⟩
        (config.seed ^^^ config.workerId.setWidth 64) := by
  have guard : ¬ (arena.base = 0 ∨ arena.words = 0 ∨ config.workerCount = 0 ∨
      config.workerId ≥ config.workerCount) := by
    rintro (h | h | h | h)
    · exact ok.base h
    · exact ok.words h
    · exact ok.workers h
    · exact absurd ok.worker (BitVec.not_lt.2 h)
  simp only [nxmtRunnerRunPass, if_neg guard, nxmtRunnerIsAligned, ok.aligned, decide_true,
    Bool.not_true, Bool.false_eq_true, if_false]
  rfl

theorem nxmtRunnerRunPass_refuses (bad : ¬ Accepts arena config) :
    nxmtRunnerRunPass (some arena) (some config) (some report) (some stats) =
      pure ⟨.unsupported, some report, some ⟨0, 0, 0, .fixedA⟩⟩ := by
  simp only [nxmtRunnerRunPass]
  split
  · rfl
  · rename_i guard
    simp only [not_or] at guard
    obtain ⟨base, words, workers, worker⟩ := guard
    split
    · rfl
    · rename_i aligned
      refine absurd ⟨base, words, workers, BitVec.not_le.1 worker, ?_⟩ bad
      simpa [nxmtRunnerIsAligned] using aligned

theorem path_nxmtRunnerRunPass (ok : Accepts arena config) {t : List (Event Call.Answer)}
    {out : PassResult}
    (h : Path (nxmtRunnerRunPass (some arena) (some config) (some report) (some stats)) t out) :
    ∃ finished, PhasesRan (sliceStart arena config) (sliceCount arena config) report.errorCount
      (nxmtPhasesForMode config.mode) report ⟨0, 0, 0, .fixedA⟩ t out finished := by
  rw [nxmtRunnerRunPass_accepts report stats ok] at h
  exact path_runPhases h

end

end NxMemTest
