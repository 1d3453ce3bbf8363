import NxMemTest.MainLoop

/-! What the events of a run of the main loop say about its state: what it
merged, under which contexts the workers ran, and who raised the stop flag. -/

namespace NxMemTest
open Interaction Program

structure FinishedWorker where
  context : NxmtWorkerContext
  stop : Bool
  run : WorkerRun context stop

def finishedWorkers : Event MainCall.Answer → List FinishedWorker
  | ⟨.runWorkers started contexts stop, runs⟩ =>
    (List.finRange started).map fun worker : Fin started => ⟨contexts worker, stop, runs worker⟩
  | _ => []

def abortSeen : Event MainCall.Answer → Bool
  | ⟨.appletMainLoop, running⟩ => !running
  | ⟨.readPlus, plus⟩ => plus
  | _ => false

def finished (t : List (Event MainCall.Answer)) : List FinishedWorker := t.flatMap finishedWorkers

def Expired (durationMs testStarted : Word) (t : List (Event MainCall.Answer)) : Prop :=
  durationMs ≠ 0 ∧ ∃ now : Word, ⟨.ticksMs, now⟩ ∈ t ∧ now - testStarted ≥ durationMs

def mergeAll (workers : List FinishedWorker) (totals : Totals) : Totals :=
  workers.foldl (fun totals f => mergeWorkerContext f.run.result totals) totals

@[simp] theorem finished_append (t u : List (Event MainCall.Answer)) :
    finished (t ++ u) = finished t ++ finished u := List.flatMap_append

@[simp] theorem finished_cons (e : Event MainCall.Answer) (t : List (Event MainCall.Answer)) :
    finished (e :: t) = finishedWorkers e ++ finished t := List.flatMap_cons

theorem mergeAll_append (l l' : List FinishedWorker) (totals : Totals) :
    mergeAll (l ++ l') totals = mergeAll l' (mergeAll l totals) := List.foldl_append

theorem Expired.mono {durationMs testStarted : Word} {t u : List (Event MainCall.Answer)}
    (h : Expired durationMs testStarted t) (sub : ∀ e ∈ t, e ∈ u) :
    Expired durationMs testStarted u := by
  obtain ⟨some, now, seen, late⟩ := h
  exact ⟨some, now, sub _ seen, late⟩

def MainCall.Idle : MainCall → Prop
  | .runWorkers .. => False
  | _ => True

theorem idle_finished {t : List (Event MainCall.Answer)} (h : ∀ e ∈ t, e.1.Idle) :
    finished t = [] := by
  refine List.flatMap_eq_nil_iff.2 fun e he => ?_
  have idle := h e he
  obtain ⟨c, r⟩ := e
  cases c with
  | runWorkers => exact absurd idle id
  | _ => rfl

/-- The workers of a pass: at least one, at most as many as share the words, each
on its own context. -/
def Started (c : MainConfig) : Event MainCall.Answer → Prop
  | ⟨.runWorkers started contexts _, _⟩ => ∃ workers pass progressBytes,
    0 < started ∧ started ≤ workers.toNat ∧ contexts = workerContext c workers pass progressBytes
  | _ => True

theorem idle_started {c : MainConfig} {t : List (Event MainCall.Answer)}
    (h : ∀ e ∈ t, e.1.Idle) : ∀ e ∈ t, Started c e := by
  intro e he
  have idle := h e he
  obtain ⟨c, r⟩ := e
  cases c with
  | runWorkers => exact absurd idle id
  | _ => trivial

/-- What the events `t` of a stretch of the run, from `st` to `st'`, amount to. -/
structure Ran (c : MainConfig) (testStarted : Word) (t : List (Event MainCall.Answer))
    (st st' : RunState) : Prop where
  totals : st'.totals = mergeAll (finished t) st.totals
  started : ∀ e ∈ t, Started c e
  stopped : ∀ f ∈ finished t, f.stop = true →
    st'.userAborted = true ∨ Expired c.durationMs testStarted t
  aborted : st'.userAborted = true → st.userAborted = true ∨ ∃ e ∈ t, abortSeen e = true
  keeps : st.userAborted = true → st'.userAborted = true

section
variable {c : MainConfig} {testStarted : Word} {t u : List (Event MainCall.Answer)}
  {st st' st'' : RunState}

theorem Ran.idle (h : ∀ e ∈ t, e.1.Idle) (totals : st'.totals = st.totals)
    (aborted : st'.userAborted = st.userAborted) : Ran c testStarted t st st' := by
  refine ⟨?_, idle_started h, ?_, ?_, ?_⟩
  · rw [idle_finished h]
    exact totals
  · rw [idle_finished h]
    exact fun f hf => absurd hf List.not_mem_nil
  · exact fun h => .inl (aborted ▸ h)
  · exact fun h => aborted.trans h

theorem Ran.trans (h : Ran c testStarted t st st') (h' : Ran c testStarted u st' st'') :
    Ran c testStarted (t ++ u) st st'' := by
  refine ⟨?_, ?_, ?_, ?_, fun aborted => h'.keeps (h.keeps aborted)⟩
  · rw [h'.totals, h.totals, finished_append, mergeAll_append]
  · intro e he
    rcases List.mem_append.1 he with he | he
    · exact h.started e he
    · exact h'.started e he
  · intro f hf stop
    rw [finished_append] at hf
    rcases List.mem_append.1 hf with hf | hf
    · exact (h.stopped f hf stop).imp h'.keeps
        (·.mono fun e he => List.mem_append_left u he)
    · exact (h'.stopped f hf stop).imp_right (·.mono fun e he => List.mem_append_right t he)
  · intro aborted
    rcases h'.aborted aborted with before | ⟨e, he, seen⟩
    · rcases h.aborted before with before | ⟨e, he, seen⟩
      · exact .inl before
      · exact .inr ⟨e, List.mem_append_left u he, seen⟩
    · exact .inr ⟨e, List.mem_append_right t he, seen⟩

end

/-! ### The parts of a pass -/

theorem timerExpired_idle (durationMs testStarted : Word) :
    (timerExpired durationMs testStarted).Uses MainCall.Idle := by
  unfold timerExpired
  split
  · exact uses_bind (uses_call.2 trivial) fun _ => uses_pure _
  · exact uses_pure _

theorem path_timerExpired {durationMs testStarted : Word} {t : List (Event MainCall.Answer)}
    (h : Path (timerExpired durationMs testStarted) t true) :
    Expired durationMs testStarted t := by
  unfold timerExpired at h
  split at h
  · rename_i some
    obtain ⟨now, u, rfl, hu⟩ := path_call_bind.1 h
    obtain ⟨rfl, late⟩ := path_pure.1 hu
    refine ⟨?_, now, List.mem_cons_self, of_decide_eq_true late.symm⟩
    rintro rfl
    exact absurd some (by decide)
  · exact absurd (path_pure.1 h).2 (by decide)

theorem callEach_idle {call : Nat → Main Bool} (h : ∀ w, (call w).Uses MainCall.Idle)
    (worker left : Nat) : (callEach call worker left).Uses MainCall.Idle := by
  induction left generalizing worker with
  | zero => exact uses_pure _
  | succ left ih =>
    refine uses_bind (h worker) fun ok => ?_
    split
    · exact ih (worker + 1)
    · exact uses_pure _

theorem path_callEach {call : Nat → Main Bool} {worker left : Nat}
    {t : List (Event MainCall.Answer)} {all : Bool} {calls : Nat}
    (h : Path (callEach call worker left) t (all, calls)) :
    calls ≤ worker + left ∧ (all = true → calls = worker + left) := by
  induction left generalizing worker t with
  | zero =>
    obtain ⟨-, same⟩ := path_pure.1 h
    cases same
    exact ⟨le_rfl, fun _ => rfl⟩
  | succ left ih =>
    obtain ⟨ok, u, v, -, -, hv⟩ := path_bind.1 h
    cases ok with
    | true =>
      obtain ⟨le, eq⟩ := ih hv
      exact ⟨by omega, fun all => by rw [eq all]; omega⟩
    | false =>
      obtain ⟨-, same⟩ := path_pure.1 hv
      cases same
      exact ⟨by omega, by simp⟩

theorem waitWorkers_idle (durationMs testStarted : Word) (started fuel : Nat) :
    (waitWorkers durationMs testStarted started fuel).Uses MainCall.Idle := by
  induction fuel with
  | zero => exact uses_pure _
  | succ fuel ih =>
    refine uses_bind (uses_call.2 trivial) fun finished => ?_
    split
    · refine uses_bind (uses_call.2 trivial) fun running => ?_
      split
      · exact uses_pure _
      · refine uses_bind (uses_call.2 trivial) fun plus => ?_
        split
        · exact uses_pure _
        · refine uses_bind (timerExpired_idle _ _) fun expired => ?_
          split
          · exact uses_pure _
          · exact ih
    · exact uses_pure _

theorem path_waitWorkers {durationMs testStarted : Word} {started fuel : Nat}
    {t : List (Event MainCall.Answer)} {ended : WaitEnd}
    (h : Path (waitWorkers durationMs testStarted started fuel) t (some ended)) :
    (ended = .userAbort → ∃ e ∈ t, abortSeen e = true) ∧
      (ended = .timer → Expired durationMs testStarted t) := by
  induction fuel generalizing t with
  | zero => exact absurd (path_pure.1 h).2 (by simp)
  | succ fuel ih =>
    obtain ⟨count, u, rfl, hu⟩ := path_call_bind.1 h
    split at hu
    · obtain ⟨running, v, rfl, hv⟩ := path_call_bind.1 hu
      cases running with
      | false =>
        obtain ⟨rfl, same⟩ := path_pure.1 hv
        cases same
        exact ⟨fun _ => ⟨⟨.appletMainLoop, false⟩, by simp, rfl⟩, by simp⟩
      | true =>
        obtain ⟨plus, w, rfl, hw⟩ := path_call_bind.1 hv
        cases plus with
        | true =>
          obtain ⟨rfl, same⟩ := path_pure.1 hw
          cases same
          exact ⟨fun _ => ⟨⟨.readPlus, true⟩, by simp, rfl⟩, by simp⟩
        | false =>
          obtain ⟨expired, x, y, rfl, hx, hy⟩ := path_bind.1 hw
          cases expired with
          | true =>
            obtain ⟨rfl, same⟩ := path_pure.1 hy
            cases same
            exact ⟨by simp, fun _ => (path_timerExpired hx).mono fun e he => by simp [he]⟩
          | false =>
            obtain ⟨user, timer⟩ := ih hy
            refine ⟨fun aborted => ?_, fun late => (timer late).mono fun e he => by simp [he]⟩
            obtain ⟨e, he, seen⟩ := user aborted
            exact ⟨e, by simp [he], seen⟩
    · obtain ⟨rfl, same⟩ := path_pure.1 hu
      cases same
      exact ⟨by simp, by simp⟩

theorem path_runAndMerge {started : Nat} {contexts : Nat → NxmtWorkerContext} {st st' : RunState}
    {t : List (Event MainCall.Answer)} (h : Path (runAndMerge started contexts st) t st') :
    ∃ runs, t = [⟨.runWorkers started contexts st.stopRequested, runs⟩] ∧
      st'.totals = mergeAll (finished t) st.totals ∧ st'.userAborted = st.userAborted ∧
      st'.stopRequested = st.stopRequested ∧ st'.threadFallback = st.threadFallback := by
  obtain ⟨runs, u, rfl, hu⟩ := path_call_bind.1 h
  obtain ⟨rfl, rfl⟩ := path_pure.1 hu
  refine ⟨runs, rfl, ?_, rfl, rfl, rfl⟩
  simp only [finished, List.flatMap_singleton, finishedWorkers, mergeAll, List.foldl_map]

theorem Ran.workers {c : MainConfig} {testStarted : Word} {t : List (Event MainCall.Answer)}
    {started : Nat} {workers : BitVec 32} {pass : Word} {progressBytes stop : Bool}
    {runs : (worker : Fin started) →
      WorkerRun (workerContext c workers pass progressBytes worker) stop}
    {st st' : RunState} (idle : ∀ e ∈ t, e.1.Idle) (some : 0 < started)
    (few : started ≤ workers.toNat)
    (totals : st'.totals = mergeAll (finished
      [⟨.runWorkers started (workerContext c workers pass progressBytes) stop, runs⟩]) st.totals)
    (stopped : stop = true → st'.userAborted = true ∨ Expired c.durationMs testStarted t)
    (aborted : st'.userAborted = true → st.userAborted = true ∨ ∃ e ∈ t, abortSeen e = true)
    (keeps : st.userAborted = true → st'.userAborted = true) :
    Ran c testStarted
      (t ++ [⟨.runWorkers started (workerContext c workers pass progressBytes) stop, runs⟩])
      st st' := by
  refine ⟨?_, ?_, ?_, ?_, keeps⟩
  · rw [totals, finished_append, idle_finished idle, List.nil_append]
  · intro e he
    rcases List.mem_append.1 he with he | he
    · exact idle_started idle e he
    · rw [List.mem_singleton.1 he]
      exact ⟨workers, pass, progressBytes, some, few, rfl⟩
  · intro f hf raised
    rw [finished_append, idle_finished idle, List.nil_append] at hf
    simp only [finished, List.flatMap_singleton, finishedWorkers, List.mem_map] at hf
    obtain ⟨worker, -, rfl⟩ := hf
    exact (stopped raised).imp_right (·.mono fun e he => List.mem_append_left _ he)
  · exact fun h => (aborted h).imp_right fun ⟨e, he, seen⟩ => ⟨e, List.mem_append_left _ he, seen⟩

theorem finished_workers_ne_nil {started : Nat} {contexts : Nat → NxmtWorkerContext} {stop : Bool}
    {runs : (worker : Fin started) → WorkerRun (contexts worker) stop} (some : 0 < started)
    (t : List (Event MainCall.Answer)) :
    finished (t ++ [⟨.runWorkers started contexts stop, runs⟩]) ≠ [] := by
  intro none
  have length := congrArg List.length none
  simp [finished, finishedWorkers] at length
  omega

/-! ### The loop -/

/-- The state after the workers of a pass; `more` says that the loop goes on. -/
def RunState.afterPass (st : RunState) (ended : WaitEnd) (totals : Totals) (more : Bool) :
    RunState where
  totals := totals
  passesCompleted := st.passesCompleted + 1
  passIndex := if more then st.passIndex + 1 else st.passIndex
  stopRequested := ended ≠ .finished
  userAborted := st.userAborted || ended = .userAbort
  threadFallback := st.threadFallback

/-- What one turn of the loop does: it finds the time over, falls back, or runs the
workers of a pass. -/
inductive Turn (c : MainConfig) (testStarted : Word) (st : RunState) :
    List (Event MainCall.Answer) → Bool → RunState → Prop
  | late {t : List (Event MainCall.Answer)} (idle : ∀ e ∈ t, e.1.Idle)
      (expired : Expired c.durationMs testStarted t) : Turn c testStarted st t false st
  | fallback {t : List (Event MainCall.Answer)} (idle : ∀ e ∈ t, e.1.Idle) :
      Turn c testStarted st t false { st with threadFallback := true }
  | pass {t : List (Event MainCall.Answer)} {started : Nat} {ended : WaitEnd} {more : Bool}
      {runs : (worker : Fin started) → WorkerRun (workerContext c c.workers st.passIndex true worker)
        (decide (ended ≠ .finished))} {totals : Totals}
      (idle : ∀ e ∈ t, e.1.Idle) (some_worker : 0 < started) (few : started ≤ c.workers.toNat)
      (user : ended = .userAbort → ∃ e ∈ t, abortSeen e = true)
      (timer : ended = .timer → Expired c.durationMs testStarted t)
      (merged : totals = (List.finRange started).foldl
        (fun totals worker => mergeWorkerContext (runs worker).result totals) st.totals)
      (goes : more = true → ended = .finished ∧ totals.status ≠ .fail ∧ c.durationMs ≠ 0) :
      Turn c testStarted st (t ++ [⟨.runWorkers started (workerContext c c.workers st.passIndex true)
        (decide (ended ≠ .finished)), runs⟩]) more (st.afterPass ended totals more)

section
variable {c : MainConfig} {testStarted : Word} {fuel : Nat} {st st' : RunState}
  {t : List (Event MainCall.Answer)}

theorem path_mainPass (workers : c.workers ≠ 0) (down : st.stopRequested = false) {more : Bool}
    (h : Path (mainPass c testStarted fuel st) t (some (more, st'))) :
    Turn c testStarted st t more st' := by
  rw [mainPass, if_neg (by simp [down])] at h
  obtain ⟨expired, a, x, rfl, ha, hx⟩ := path_bind.1 h
  have idle_a := ha.asked (timerExpired_idle _ _)
  cases expired with
  | true =>
    obtain ⟨rfl, same⟩ := path_pure.1 hx
    cases same
    rw [List.append_nil]
    exact .late idle_a (path_timerExpired ha)
  | false =>
    obtain ⟨⟨created, count⟩, b, y, rfl, hb, hy⟩ := path_bind.1 hx
    have idle_b := hb.asked (callEach_idle (fun _ => uses_call.2 trivial) _ _)
    cases created with
    | false =>
      obtain ⟨rfl, same⟩ := path_pure.1 hy
      cases same
      rw [List.append_nil]
      exact .fallback (List.forall_mem_append.2 ⟨idle_a, idle_b⟩)
    | true =>
      obtain ⟨⟨startedAll, started⟩, d, z, rfl, hd, hz⟩ := path_bind.1 hy
      obtain ⟨few, all⟩ := path_callEach hd
      have idle_d := hd.asked (callEach_idle (fun _ => uses_call.2 trivial) _ _)
      have idle_abd : ∀ e ∈ a ++ (b ++ d), e.1.Idle :=
        List.forall_mem_append.2 ⟨idle_a, List.forall_mem_append.2 ⟨idle_b, idle_d⟩⟩
      dsimp only at hz
      split at hz
      · obtain ⟨rfl, same⟩ := path_pure.1 hz
        cases same
        rw [List.append_nil]
        exact .fallback idle_abd
      · rename_i enough
        have pos : 0 < c.workers.toNat := by
          rw [Nat.pos_iff_ne_zero]
          exact fun zero => workers (BitVec.eq_of_toNat_eq zero)
        have some_worker : 0 < started := by
          cases startedAll with
          | true =>
            rw [all rfl]
            omega
          | false =>
            rw [Nat.pos_iff_ne_zero]
            simpa using enough
        obtain ⟨ended, w, z, rfl, hw, hz⟩ := path_bind.1 hz
        cases ended with
        | none => exact absurd (path_pure.1 hz).2 (by simp)
        | some ended =>
          obtain ⟨user, timer⟩ := path_waitWorkers hw
          have idle_w := hw.asked (waitWorkers_idle _ _ _ _)
          obtain ⟨st₁, e, q, rfl, he, hq⟩ := path_bind.1 hz
          obtain ⟨runs, u, rfl, hu⟩ := path_call_bind.1 he
          obtain ⟨rfl, rfl⟩ := path_pure.1 hu
          have shape : ∀ e : Event MainCall.Answer,
              a ++ (b ++ (d ++ (w ++ ([e] ++ [])))) = a ++ (b ++ d) ++ w ++ [e] := fun e => by
            simp only [List.append_assoc, List.append_nil]
          have user' : ended = .userAbort → ∃ e ∈ a ++ (b ++ d) ++ w, abortSeen e = true := by
            intro abort
            obtain ⟨e, he, seen⟩ := user abort
            exact ⟨e, List.mem_append_right _ he, seen⟩
          have timer' : ended = .timer →
              Expired c.durationMs testStarted (a ++ (b ++ d) ++ w) := fun late =>
            (timer late).mono fun e he => List.mem_append_right _ he
          have idle := List.forall_mem_append.2 ⟨idle_abd, idle_w⟩
          split at hq
          · obtain ⟨rfl, same⟩ := path_pure.1 hq
            cases same
            rw [shape]
            exact .pass idle some_worker (by omega) user' timer' rfl (by simp)
          · rename_i goes
            obtain ⟨rfl, same⟩ := path_pure.1 hq
            cases same
            rw [shape]
            refine .pass idle some_worker (by omega) user' timer' rfl fun _ => ?_
            simp only [not_or, decide_eq_true_eq, not_not] at goes
            exact ⟨goes.2.1, goes.1, goes.2.2⟩

inductive Turns (c : MainConfig) (testStarted : Word) :
    RunState → List (Event MainCall.Answer) → RunState → Prop
  | nil (st : RunState) : Turns c testStarted st [] st
  | cons {st st' st'' : RunState} {t u : List (Event MainCall.Answer)}
      (turn : Turn c testStarted st t true st') (rest : Turns c testStarted st' u st'') :
      Turns c testStarted st (t ++ u) st''

theorem path_mainLoop_turns (workers : c.workers ≠ 0) (down : st.stopRequested = false)
    (h : Path (mainLoop c testStarted fuel st) t (some st')) :
    ∃ u v st₁, t = u ++ v ∧ Turns c testStarted st u st₁ ∧ Turn c testStarted st₁ v false st' := by
  induction fuel generalizing st t with
  | zero => exact absurd (path_pure.1 h).2 (by simp)
  | succ fuel ih =>
    obtain ⟨pass, u, v, rfl, hu, hv⟩ := path_bind.1 h
    cases pass with
    | none => exact absurd (path_pure.1 hv).2 (by simp)
    | some turn =>
      obtain ⟨more, st₁⟩ := turn
      have turn := path_mainPass workers down hu
      cases more with
      | true =>
        have down' : st₁.stopRequested = false := by
          cases turn with
          | pass _ _ _ _ _ _ goes => simp [RunState.afterPass, (goes rfl).1]
        obtain ⟨u', v', st₂, rfl, turns, last⟩ := ih down' hv
        exact ⟨u ++ u', v', st₂, (List.append_assoc u u' v').symm, .cons turn turns, last⟩
      | false =>
        obtain ⟨rfl, same⟩ := path_pure.1 hv
        cases same
        exact ⟨[], u, st, by simp, .nil st, turn⟩

/-- What every turn keeps, all turns keep. -/
theorem Turns.inv {P : List (Event MainCall.Answer) → RunState → Prop}
    (step : ∀ t u st more st', P t st → Turn c testStarted st u more st' → P (t ++ u) st')
    (turns : Turns c testStarted st t st') {u : List (Event MainCall.Answer)} (start : P u st) :
    P (u ++ t) st' := by
  induction turns generalizing u with
  | nil st => rwa [List.append_nil]
  | cons turn rest ih =>
    rw [← List.append_assoc]
    exact ih (step _ _ _ _ _ start turn)

theorem path_mainLoop_inv (P : List (Event MainCall.Answer) → RunState → Prop)
    (step : ∀ t u st more st', P t st → Turn c testStarted st u more st' → P (t ++ u) st')
    (workers : c.workers ≠ 0) (down : st.stopRequested = false) (start : P [] st)
    (h : Path (mainLoop c testStarted fuel st) t (some st')) : P t st' := by
  obtain ⟨u, v, st₁, rfl, turns, last⟩ := path_mainLoop_turns workers down h
  exact step u v st₁ false st' (turns.inv step start) last

theorem Turn.ran {more : Bool} (h : Turn c testStarted st t more st') :
    Ran c testStarted t st st' := by
  cases h with
  | late idle _ => exact .idle idle rfl rfl
  | fallback idle => exact .idle idle rfl rfl
  | @pass t started ended more runs totals idle some_worker few user timer merged goes =>
    refine Ran.workers idle some_worker few ?_ ?_ ?_ ?_
    · refine merged.trans ?_
      simp only [finished, List.flatMap_singleton, finishedWorkers, mergeAll, List.foldl_map]
    · intro stop
      cases ended with
      | finished => simp at stop
      | userAbort => exact .inl (by simp [RunState.afterPass])
      | timer => exact .inr (timer rfl)
    · intro pressed
      rw [RunState.afterPass, Bool.or_eq_true, decide_eq_true_eq] at pressed
      exact pressed.imp_right user
    · intro before
      rw [RunState.afterPass, before, Bool.true_or]

theorem Turn.busy {more : Bool} (h : Turn c testStarted st t more st') :
    finished t ≠ [] ∨ st'.threadFallback = true ∨ Expired c.durationMs testStarted t := by
  cases h with
  | late _ expired => exact .inr (.inr expired)
  | fallback _ => exact .inr (.inl rfl)
  | pass _ some_worker => exact .inl (finished_workers_ne_nil some_worker _)

theorem path_mainLoop (workers : c.workers ≠ 0) (down : st.stopRequested = false)
    (h : Path (mainLoop c testStarted fuel st) t (some st')) :
    Ran c testStarted t st st' ∧
      (finished t ≠ [] ∨ st'.threadFallback = true ∨ Expired c.durationMs testStarted t) := by
  have start : Ran c testStarted [] st st := .idle (by simp) rfl rfl
  have ran := path_mainLoop_inv (fun t st' => Ran c testStarted t st st')
    (fun _ _ _ _ _ before turn => before.trans turn.ran) workers down start h
  obtain ⟨u, v, st₁, rfl, -, last⟩ := path_mainLoop_turns workers down h
  refine ⟨ran, last.busy.imp ?_ (.imp_right (·.mono fun e he => List.mem_append_right u he))⟩
  intro some_worker
  simp [some_worker]

theorem path_runFallback (h : Path (runFallback c st) t st') :
    Ran c testStarted t st st' ∧ (st.threadFallback = true → finished t ≠ []) := by
  unfold runFallback at h
  split at h
  · obtain ⟨runs, rfl, totals, aborted, -, -⟩ := path_runAndMerge h
    dsimp only at totals aborted
    refine ⟨Ran.workers (t := []) (by simp) Nat.one_pos (by decide) totals (by simp) ?_ ?_,
      fun _ => finished_workers_ne_nil Nat.one_pos []⟩
    · exact fun pressed => .inl (aborted ▸ pressed)
    · exact fun before => aborted.trans before
  · rename_i none
    obtain ⟨rfl, rfl⟩ := path_pure.1 h
    exact ⟨.idle (by simp) rfl rfl, fun some => absurd some none⟩

end

/-! ### The whole run -/

structure MainConfig.Fit (c : MainConfig) : Prop where
  base : c.cpuArena.base ≠ 0
  wellFormed : c.cpuArena.WellFormed
  words : c.cpuArena.words ≠ 0
  workers : c.workers ≠ 0

theorem carveOut_wellFormed {arena : NxmtArena} (wf : arena.WellFormed)
    (large : arena.size ≥ 1024 * BitVec.ofNat 64 nxmtMibBytes) {size : Word}
    (rest : size = arena.size - 256 * BitVec.ofNat 64 nxmtMibBytes) :
    (NxmtArena.mk arena.base size (size / BitVec.ofNat 64 nxmtWordBytes)).WellFormed ∧
      size / BitVec.ofNat 64 nxmtWordBytes ≠ 0 := by
  have gib : (1024 * BitVec.ofNat 64 nxmtMibBytes).toNat = 2 ^ 30 := by decide
  have region : (256 * BitVec.ofNat 64 nxmtMibBytes).toNat = 2 ^ 28 := by decide
  have eight : (BitVec.ofNat 64 nxmtWordBytes).toNat = 8 := by decide
  have page := wf.size_page
  have top := wf.no_wrap
  rw [ge_iff_le, BitVec.le_def, gib] at large
  have value : size.toNat = arena.size.toNat - 2 ^ 28 := by
    rw [rest, BitVec.toNat_sub_of_le (by rw [BitVec.le_def]; omega), region]
  have words : (size / BitVec.ofNat 64 nxmtWordBytes).toNat = size.toNat / 8 := by
    rw [BitVec.toNat_udiv, eight]
  refine ⟨⟨wf.base_page, ?_, ?_, ?_⟩, fun zero => ?_⟩
  · dsimp only
    omega
  · dsimp only
    omega
  · dsimp only
    omega
  · rw [zero] at words
    have none : (0 : Word).toNat = 0 := rfl
    omega

theorem path_gpuCarveOut {mode : NxmtMode} {arena : NxmtArena} {workers : BitVec 32}
    {t : List (Event MainCall.Answer)} {share : NxmtArena × BitVec 32}
    (hbase : arena.base ≠ 0) (wf : arena.WellFormed) (hwords : arena.words ≠ 0)
    (hworkers : workers ≠ 0) (h : Path (gpuCarveOut mode arena workers) t share)
    (seed durationMs : Word) :
    (∀ e ∈ t, e.1.Idle) ∧ (MainConfig.mk mode seed durationMs share.1 share.2).Fit ∧
      share.1.words.toNat ≤ arena.words.toNat := by
  have whole : (MainConfig.mk mode seed durationMs arena workers).Fit :=
    ⟨hbase, wf, hwords, hworkers⟩
  unfold gpuCarveOut at h
  split at h
  · rename_i large
    obtain ⟨-, large, two⟩ := large
    obtain ⟨active, u, rfl, hu⟩ := path_call_bind.1 h
    obtain ⟨rfl, rfl⟩ := path_pure.1 hu
    refine ⟨by simp [MainCall.Idle], ?_⟩
    cases active with
    | false => exact ⟨whole, le_rfl⟩
    | true =>
      obtain ⟨wf', hwords'⟩ := carveOut_wellFormed wf large rfl
      have less : workers - 1 ≠ 0 := by bv_omega
      refine ⟨⟨hbase, wf', hwords', less⟩, ?_⟩
      have part := wf'.words_size
      have all := wf.words_size
      have size : (arena.size - 256 * BitVec.ofNat 64 nxmtMibBytes).toNat ≤ arena.size.toNat := by
        have region : 256 * BitVec.ofNat 64 nxmtMibBytes ≤ arena.size := by
          rw [ge_iff_le] at large
          refine BitVec.le_trans ?_ large
          decide
        rw [BitVec.toNat_sub_of_le region]
        exact Nat.sub_le _ _
      simp only [if_true]
      dsimp only at part
      omega
  · obtain ⟨rfl, rfl⟩ := path_pure.1 h
    exact ⟨by simp, whole, le_rfl⟩

structure MainRan (mode : NxmtMode) (durationMs : Word) (report : NxmtReport)
    (t : List (Event MainCall.Answer)) (out : MainResult) : Prop where
  mode_eq : out.config.mode = mode
  duration_eq : out.config.durationMs = durationMs
  fit : out.config.Fit
  ran : Ran out.config out.testStarted t ⟨initTotals report, 0, 0, false, false, false⟩ out.state
  busy : finished t ≠ [] ∨ Expired out.config.durationMs out.testStarted t
  status_eq : out.status = finalStatus out.state.userAborted out.gpuErrBatches
    out.state.totals.report out.state.totals.status

/-- The stretches of a run: the carve-out and the first reading of the clock, the loop,
the fallback, and the pump's count. -/
structure MainStretches (mode : NxmtMode) (seed durationMs : Word) (arena : NxmtArena)
    (report : NxmtReport) (fuel : Nat) (front loop back : List (Event MainCall.Answer))
    (st : RunState) (out : MainResult) : Prop where
  config_eq : out.config = ⟨mode, seed, durationMs, out.config.cpuArena, out.config.workers⟩
  fit : out.config.Fit
  words_le : out.config.cpuArena.words.toNat ≤ arena.words.toNat
  idle : ∀ e ∈ front, e.1.Idle
  loop_path : Path (mainLoop out.config out.testStarted fuel
    ⟨initTotals report, 0, 0, false, false, false⟩) loop (some st)
  back_path : Path (runFallback out.config st) back out.state
  status_eq : out.status = finalStatus out.state.userAborted out.gpuErrBatches
    out.state.totals.report out.state.totals.status

section
variable {mode : NxmtMode} {seed durationMs : Word} {arena : NxmtArena} {workers : BitVec 32}
  {report : NxmtReport} {fuel : Nat} {t : List (Event MainCall.Answer)} {out : MainResult}
  (hbase : arena.base ≠ 0) (wf : arena.WellFormed) (hwords : arena.words ≠ 0)
  (hworkers : workers ≠ 0)
  (h : Path (mainRun mode seed durationMs arena workers report fuel) t (some out))
include hbase wf hwords hworkers h

theorem path_mainRun_stretches : ∃ front loop back st,
    t = front ++ (loop ++ (back ++ [⟨.gpuPumpErrBatches, out.gpuErrBatches⟩])) ∧
      MainStretches mode seed durationMs arena report fuel front loop back st out := by
  obtain ⟨⟨cpuArena, cpuWorkers⟩, a, x, rfl, ha, hx⟩ := path_bind.1 h
  obtain ⟨idle_a, fit, words_le⟩ := path_gpuCarveOut hbase wf hwords hworkers ha seed durationMs
  obtain ⟨testStarted, y, rfl, hy⟩ := path_call_bind.1 hx
  obtain ⟨ended, b, z, rfl, hb, hz⟩ := path_bind.1 hy
  cases ended with
  | none => exact absurd (path_pure.1 hz).2 (by simp)
  | some st =>
    obtain ⟨st', d, w, rfl, hd, hw⟩ := path_bind.1 hz
    obtain ⟨gpu, q, rfl, hq⟩ := path_call_bind.1 hw
    obtain ⟨rfl, same⟩ := path_pure.1 hq
    cases same
    exact ⟨a ++ [⟨.ticksMs, testStarted⟩], b, d, st, by simp, rfl, fit, words_le,
      List.forall_mem_append.2 ⟨idle_a, by simp [MainCall.Idle]⟩, hb, hd, rfl⟩

theorem path_mainRun : MainRan mode durationMs report t out := by
  obtain ⟨front, loop, back, st, rfl, parts⟩ := path_mainRun_stretches hbase wf hwords hworkers h
  obtain ⟨ran, busy⟩ := path_mainLoop parts.fit.workers rfl parts.loop_path
  obtain ⟨ran', fallback⟩ := path_runFallback parts.back_path
  let st₀ : RunState := ⟨initTotals report, 0, 0, false, false, false⟩
  have before : Ran out.config out.testStarted front st₀ st₀ := .idle parts.idle rfl rfl
  have after : Ran out.config out.testStarted [⟨.gpuPumpErrBatches, out.gpuErrBatches⟩] out.state
      out.state := .idle (by simp [MainCall.Idle]) rfl rfl
  refine ⟨?_, ?_, parts.fit, before.trans (ran.trans (ran'.trans after)), ?_, parts.status_eq⟩
  · rw [parts.config_eq]
  · rw [parts.config_eq]
  · rcases busy with some_worker | raised | late
    · exact .inl (by simp [some_worker])
    · exact .inl (by simp [fallback raised])
    · exact .inr (late.mono fun e he => by simp [he])

end

end NxMemTest
