import NxMemTest.GpuPump

/-! `nxmt_gpu_pump_start` and the thread that it starts, in any interleaving. All
that they share is `g_pump_init_done` and `g_pump_init_failed`. -/

namespace NxMemTest
open Interaction Program

/-- How far `pump_thread_entry` has come. -/
inductive PumpThread where
  | idle
  | setup (left : Nat)
  /-- `pump_setup` has returned true. -/
  | setupSucceeded
  | looping
  /-- `pump_setup` has returned false. -/
  | setupFailed
  | failureStored
  | exited
  deriving DecidableEq, Repr

structure PumpShared where
  thread : PumpThread
  initDone : Bool
  initFailed : Bool
  deriving DecidableEq, Repr

/-- Whether the thread can be created and started, how many steps `pump_setup` takes and
what it returns. -/
structure PumpOutcome where
  created : Bool
  started : Bool
  setupSteps : Nat
  setupOk : Bool

def pumpThreadStep (o : PumpOutcome) (s : PumpShared) : PumpShared :=
  match s.thread with
  | .setup (left + 1) => { s with thread := .setup left }
  | .setup 0 => { s with thread := if o.setupOk then .setupSucceeded else .setupFailed }
  | .setupSucceeded => { s with thread := .looping, initDone := true }
  | .setupFailed => { s with thread := .failureStored, initFailed := true }
  | .failureStored => { s with thread := .exited, initDone := true }
  | .idle | .looping | .exited => s

/-- The answer to a question of `nxmt_gpu_pump_start`; `none` while it has to wait for
one. Both flags are cleared right before the thread is created. -/
def pumpServe (o : PumpOutcome) (s : PumpShared) :
    (c : PumpCall) → Option (PumpCall.Answer c × PumpShared)
  | .threadCreate => some (o.created, ⟨.idle, false, false⟩)
  | .threadStart .. =>
    match s.thread with
    | .idle => some (o.started, if o.started then { s with thread := .setup o.setupSteps } else s)
    | _ => some (false, s)
  | .threadClose => some ((), s)
  | .threadWaitForExit =>
    match s.thread with
    | .exited => some ((), s)
    | _ => none
  | .initDone => some (s.initDone, s)
  | .initFailed => some (s.initFailed, s)

inductive PumpParty where
  | main
  | thread
  deriving DecidableEq, Repr

structure PumpWorld where
  main : Pump Bool
  shared : PumpShared

def PumpWorld.step (o : PumpOutcome) (w : PumpWorld) : PumpParty → PumpWorld
  | .thread => { w with shared := pumpThreadStep o w.shared }
  | .main =>
    match w.main with
    | .done _ => w
    | .ask c next =>
      match pumpServe o w.shared c with
      | none => w
      | some (answer, shared) => ⟨next answer, shared⟩

def PumpWorld.run (o : PumpOutcome) (schedule : List PumpParty) (w : PumpWorld) : PumpWorld :=
  schedule.foldl (PumpWorld.step o) w

def PumpWorld.returned (w : PumpWorld) : Option Bool :=
  match w.main with
  | .done b => some b
  | .ask .. => none

def PumpWorld.ReadsInitFailed (w : PumpWorld) : Prop := ∃ next, w.main = .ask .initFailed next

def PumpThread.Initialised (t : PumpThread) : Prop := t = .setupSucceeded ∨ t = .looping

/-- `pump_setup` has returned, and if it failed `g_pump_init_failed` says so. -/
def PumpThread.Settled (t : PumpThread) : Prop :=
  t.Initialised ∨ t = .failureStored ∨ t = .exited

/-! ### The thread and its flags -/

def PumpShared.FlagTold (s : PumpShared) : Prop :=
  s.initFailed = true ↔ s.thread = .failureStored ∨ s.thread = .exited

theorem pumpThreadStep_flagTold (o : PumpOutcome) {s : PumpShared} (told : s.FlagTold) :
    (pumpThreadStep o s).FlagTold := by
  obtain ⟨thread, initDone, initFailed⟩ := s
  cases thread with
  | setup left =>
    cases left with
    | zero => cases ok : o.setupOk <;> simpa [pumpThreadStep, PumpShared.FlagTold, ok] using told
    | succ left => simpa [pumpThreadStep, PumpShared.FlagTold] using told
  | setupFailed => simp [pumpThreadStep, PumpShared.FlagTold]
  | _ => simpa [pumpThreadStep, PumpShared.FlagTold] using told

theorem pumpThreadStep_initialised (o : PumpOutcome) {s : PumpShared}
    (succeeded : s.thread.Initialised) : (pumpThreadStep o s).thread.Initialised := by
  obtain ⟨thread, initDone, initFailed⟩ := s
  rcases succeeded with rfl | rfl
  · exact .inr rfl
  · exact .inr rfl

theorem pumpServe_flagTold {o : PumpOutcome} {s s' : PumpShared} {c : PumpCall}
    {answer : PumpCall.Answer c} (served : pumpServe o s c = some (answer, s'))
    (told : c = .threadCreate ∨ s.FlagTold) : s'.FlagTold := by
  cases c with
  | threadCreate =>
    cases served
    simp [PumpShared.FlagTold]
  | threadStart base bytes =>
    replace told := told.resolve_left (by simp)
    obtain ⟨thread, initDone, initFailed⟩ := s
    cases thread with
    | idle =>
      cases started : o.started <;> simp only [pumpServe, started] at served <;> cases served
      · exact told
      · simpa [PumpShared.FlagTold] using told
    | _ => cases served; exact told
  | threadWaitForExit =>
    replace told := told.resolve_left (by simp)
    obtain ⟨thread, initDone, initFailed⟩ := s
    cases thread with
    | exited => cases served; exact told
    | _ => cases served
  | _ =>
    replace told := told.resolve_left (by simp)
    cases served
    exact told

/-! ### `nxmt_gpu_pump_start` -/

section
variable (storageBase storageSize bufferSize : Word) (stopRequested : Bool)

theorem nxmtGpuPumpStart_decided :
    (nxmtGpuPumpStart storageBase storageSize bufferSize stopRequested).DecidedBy
      .initFailed false true := by
  unfold nxmtGpuPumpStart
  split
  · exact decidedBy_pure (by decide)
  dsimp only
  split
  · exact decidedBy_pure (by decide)
  refine decidedBy_bind (uses_call.2 (by decide)) fun created => ?_
  split
  · exact decidedBy_pure (by decide)
  refine decidedBy_bind (uses_call.2 (by simp)) fun started => ?_
  split
  · exact decidedBy_bind (uses_call.2 (by decide)) fun _ => decidedBy_pure (by decide)
  refine decidedBy_bind (pollInitDone_uses (by decide) 50) fun _ => ?_
  refine decidedBy_call rfl fun failed set => ?_
  rw [if_pos (Bool.eq_true_of_not_eq_false set)]
  refine decidedBy_bind (uses_call.2 (by decide)) fun _ => ?_
  exact decidedBy_bind (uses_call.2 (by decide)) fun _ => decidedBy_pure (by decide)

theorem nxmtGpuPumpStart_first {c : PumpCall} {next : PumpCall.Answer c → Pump Bool}
    (asks : nxmtGpuPumpStart storageBase storageSize bufferSize stopRequested = .ask c next) :
    c = .threadCreate := by
  unfold nxmtGpuPumpStart at asks
  split at asks
  · cases asks
  dsimp only at asks
  split at asks
  · cases asks
  cases asks
  rfl

end

/-! ### Runs -/

namespace PumpWorld
variable (o : PumpOutcome)

theorem run_concat (schedule : List PumpParty) (party : PumpParty) (w : PumpWorld) :
    w.run o (schedule ++ [party]) = (w.run o schedule).step o party := by
  rw [run, List.foldl_append]
  rfl

theorem run_inv {I : PumpWorld → Prop} (keep : ∀ w party, I w → I (w.step o party))
    (schedule : List PumpParty) {w : PumpWorld} (hw : I w) : I (w.run o schedule) := by
  induction schedule generalizing w with
  | nil => exact hw
  | cons party rest ih => exact ih (keep w party hw)

theorem returned_eq_true {w : PumpWorld} (returned : w.returned = some true) :
    w.main = .done true := by
  obtain ⟨main, s⟩ := w
  cases main with
  | done b => exact congrArg _ (Option.some.inj returned)
  | ask c next => cases returned

theorem step_main (w : PumpWorld) :
    w.step o .main = w ∨ ∃ c next answer shared, w.main = .ask c next ∧
      pumpServe o w.shared c = some (answer, shared) ∧ w.step o .main = ⟨next answer, shared⟩ := by
  obtain ⟨main, s⟩ := w
  cases main with
  | done b => exact .inl rfl
  | ask c next =>
    cases served : pumpServe o s c with
    | none => exact .inl (by simp only [step, served])
    | some reply =>
      exact .inr ⟨c, next, reply.1, reply.2, rfl, served, by simp only [step, served]⟩

def Undecided (w : PumpWorld) : Prop :=
  w.main.DecidedBy .initFailed false true ∨ w.main = .done true

theorem step_undecided (w : PumpWorld) (party : PumpParty) (h : w.Undecided) :
    (w.step o party).Undecided := by
  cases party with
  | thread => exact h
  | main =>
    rcases w.step_main o with stay | ⟨c, next, answer, shared, asks, -, moved⟩
    · rwa [stay]
    · rw [Undecided, asks] at h
      have decided := h.resolve_right (by simp)
      rw [Undecided, moved]
      by_cases read : (⟨c, answer⟩ : Event PumpCall.Answer) = ⟨.initFailed, false⟩
      · exact .inr ((decided answer).1 read)
      · exact .inl ((decided answer).2 read)

/-- Before `main` the flags are stale; from then on `g_pump_init_failed` tells of the thread. -/
def Fresh (main : Pump Bool) (w : PumpWorld) : Prop := w.main = main ∨ w.shared.FlagTold

theorem step_fresh {main : Pump Bool} (first : ∀ c next, main = .ask c next → c = .threadCreate)
    (w : PumpWorld) (party : PumpParty) (h : w.Fresh main) : (w.step o party).Fresh main := by
  cases party with
  | thread => exact h.imp_right (pumpThreadStep_flagTold o)
  | main =>
    rcases w.step_main o with stay | ⟨c, next, answer, shared, asks, served, moved⟩
    · rwa [stay]
    · rw [moved]
      refine .inr (pumpServe_flagTold served ?_)
      rcases h with start | told
      · exact .inl (first c next (start.symm.trans asks))
      · exact .inr told

/-- The step that ends the call with true reads `g_pump_init_failed` as false, which
leaves a settled thread only its success. -/
theorem step_initialised {w : PumpWorld} {party : PumpParty} (undecided : w.Undecided)
    (told : w.ReadsInitFailed → w.shared.FlagTold)
    (settled : party = .main → w.ReadsInitFailed → w.shared.thread.Settled)
    (before : w.returned = some true → w.shared.thread.Initialised)
    (returned : (w.step o party).returned = some true) :
    (w.step o party).shared.thread.Initialised := by
  cases party with
  | thread => exact pumpThreadStep_initialised o (before returned)
  | main =>
    rcases w.step_main o with stay | ⟨c, next, answer, shared, asks, served, moved⟩
    · rw [stay] at returned ⊢
      exact before returned
    · rw [moved] at returned ⊢
      have ends : next answer = .done true := returned_eq_true returned
      rw [Undecided, asks] at undecided
      have decided := undecided.resolve_right (by simp) answer
      by_cases read : (⟨c, answer⟩ : Event PumpCall.Answer) = ⟨.initFailed, false⟩
      · cases read
        have reads : w.ReadsInitFailed := ⟨next, asks⟩
        rw [pumpServe, Option.some.injEq, Prod.mk.injEq] at served
        obtain ⟨clear, rfl⟩ := served
        refine (settled rfl reads).resolve_right fun failing => ?_
        rw [(told reads).2 failing] at clear
        cases clear
      · have other := decided.2 read
        rw [ends] at other
        exact absurd rfl other

end PumpWorld

/-! ### The turns of the thread -/

/-- `nxmt_gpu_pump_start` is called with flags that an earlier pump may have left set. -/
def pumpStarts (storageBase storageSize bufferSize : Word)
    (stopRequested initDone initFailed : Bool) : PumpWorld :=
  ⟨nxmtGpuPumpStart storageBase storageSize bufferSize stopRequested,
    ⟨.idle, initDone, initFailed⟩⟩

/-- The thread after `n` turns. -/
def pumpThreadAt (o : PumpOutcome) (n : Nat) : PumpShared :=
  (pumpThreadStep o)^[n] ⟨.setup o.setupSteps, false, false⟩

theorem pumpThreadAt_succ (o : PumpOutcome) (n : Nat) :
    pumpThreadAt o (n + 1) = pumpThreadStep o (pumpThreadAt o n) :=
  Function.iterate_succ_apply' ..

theorem pumpThreadAt_setup (o : PumpOutcome) {n : Nat} (early : n ≤ o.setupSteps) :
    pumpThreadAt o n = ⟨.setup (o.setupSteps - n), false, false⟩ := by
  induction n with
  | zero => rfl
  | succ n ih =>
    obtain ⟨left, eq⟩ : ∃ left, o.setupSteps - n = left + 1 := ⟨o.setupSteps - (n + 1), by omega⟩
    have rest : o.setupSteps - (n + 1) = left := by omega
    rw [pumpThreadAt_succ, ih (by omega), eq, rest]
    rfl

theorem pumpThreadStep_settled (o : PumpOutcome) {s : PumpShared} (settled : s.thread.Settled) :
    (pumpThreadStep o s).thread.Settled := by
  obtain ⟨thread, initDone, initFailed⟩ := s
  rcases settled with initialised | rfl | rfl
  · exact .inl (pumpThreadStep_initialised o initialised)
  · exact .inr (.inr rfl)
  · exact .inr (.inr rfl)

theorem pumpThreadAt_settled (o : PumpOutcome) {n m : Nat} (le : n ≤ m)
    (settled : (pumpThreadAt o n).thread.Settled) : (pumpThreadAt o m).thread.Settled := by
  induction m, le using Nat.le_induction with
  | base => exact settled
  | succ m _ ih =>
    rw [pumpThreadAt_succ]
    exact pumpThreadStep_settled o ih

/-- A setup that succeeds is settled a turn after its steps, one that fails another turn
later. -/
theorem pumpThreadAt_settled_iff (o : PumpOutcome) (n : Nat) :
    (pumpThreadAt o n).thread.Settled ↔ o.setupSteps + (if o.setupOk then 1 else 2) ≤ n := by
  have returned : pumpThreadAt o (o.setupSteps + 1) =
      ⟨if o.setupOk then .setupSucceeded else .setupFailed, false, false⟩ := by
    rw [pumpThreadAt_succ, pumpThreadAt_setup o le_rfl, Nat.sub_self]
    rfl
  have underway (early : n ≤ o.setupSteps) : ¬ (pumpThreadAt o n).thread.Settled := by
    rw [pumpThreadAt_setup o early]
    simp [PumpThread.Settled, PumpThread.Initialised]
  cases ok : o.setupOk with
  | true =>
    rw [ok] at returned
    refine ⟨fun settled => Nat.lt_of_not_le fun early => underway early settled, fun late => ?_⟩
    exact pumpThreadAt_settled o (n := o.setupSteps + 1) late
      (by rw [returned]; exact .inl (.inl rfl))
  | false =>
    rw [ok] at returned
    have told : pumpThreadAt o (o.setupSteps + 2) = ⟨.failureStored, false, true⟩ := by
      rw [pumpThreadAt_succ, returned]
      rfl
    refine ⟨fun settled => ?_, fun late => ?_⟩
    · have late : ¬ n ≤ o.setupSteps := fun early => underway early settled
      refine Nat.lt_of_le_of_ne (Nat.lt_of_not_le late) fun next => ?_
      rw [← next, returned] at settled
      simp [PumpThread.Settled, PumpThread.Initialised] at settled
    · exact pumpThreadAt_settled o (n := o.setupSteps + 2) late
        (by rw [told]; exact .inr (.inl rfl))

/-- The turns of main so far, and those of the thread after main's second. -/
def pumpTurn (k : Nat × Nat) : PumpParty → Nat × Nat
  | .main => (k.1 + 1, k.2)
  | .thread => if 2 ≤ k.1 then (k.1, k.2 + 1) else k

/-- The turns of the thread after main's second turn, with which it is started. -/
def turnsSinceStart (schedule : List PumpParty) : Nat := (schedule.foldl pumpTurn (0, 0)).2

/-- Questions that change nothing. -/
def PumpCall.Quiet (c : PumpCall) : Prop :=
  c ≠ .threadCreate ∧ ∀ base bytes, c ≠ .threadStart base bytes

/-- Where a run stands after so many turns: main is about to create the thread or to start it,
the thread has been started, or the flag will never be read. -/
inductive PumpPlace (o : PumpOutcome) : PumpWorld → Nat × Nat → Prop
  | creates {base bytes : Word} {next next' : Bool → Pump Bool} {s : PumpShared}
      (refused : (next false).Uses (· ≠ .initFailed))
      (starts : next true = .ask (.threadStart base bytes) next')
      (refused' : (next' false).Uses (· ≠ .initFailed)) (quiet : (next' true).Uses PumpCall.Quiet)
      (idle : s.thread = .idle) : PumpPlace o ⟨.ask .threadCreate next, s⟩ (0, 0)
  | starts {base bytes : Word} {next : Bool → Pump Bool}
      (refused : (next false).Uses (· ≠ .initFailed)) (quiet : (next true).Uses PumpCall.Quiet) :
      PumpPlace o ⟨.ask (.threadStart base bytes) next, ⟨.idle, false, false⟩⟩ (1, 0)
  | started {main : Pump Bool} {k : Nat × Nat} (quiet : main.Uses PumpCall.Quiet)
      (turns : 2 ≤ k.1) : PumpPlace o ⟨main, pumpThreadAt o k.2⟩ k
  | never {main : Pump Bool} {s : PumpShared} {k : Nat × Nat}
      (unread : main.Uses (· ≠ .initFailed)) : PumpPlace o ⟨main, s⟩ k

theorem pumpServe_quiet {o : PumpOutcome} {s s' : PumpShared} {c : PumpCall}
    {answer : PumpCall.Answer c} (quiet : c.Quiet) (served : pumpServe o s c = some (answer, s')) :
    s' = s := by
  cases c with
  | threadCreate => exact absurd rfl quiet.1
  | threadStart base bytes => exact absurd rfl (quiet.2 base bytes)
  | threadWaitForExit =>
    obtain ⟨thread, initDone, initFailed⟩ := s
    cases thread <;> cases served
    rfl
  | _ => cases served; rfl

theorem PumpPlace.step {o : PumpOutcome} {w : PumpWorld} {k : Nat × Nat} (place : PumpPlace o w k)
    (party : PumpParty) : PumpPlace o (w.step o party) (pumpTurn k party) := by
  cases place with
  | @creates base bytes next next' s refused starts refused' quiet idle =>
    cases party with
    | main =>
      change PumpPlace o ⟨next o.created, ⟨.idle, false, false⟩⟩ (1, 0)
      cases o.created with
      | false => exact .never refused
      | true =>
        rw [starts]
        exact .starts refused' quiet
    | thread =>
      have still : pumpThreadStep o s = s := by
        rw [pumpThreadStep, idle]
      change PumpPlace o ⟨.ask .threadCreate next, pumpThreadStep o s⟩ (0, 0)
      rw [still]
      exact .creates refused starts refused' quiet idle
  | @starts base bytes next refused quiet =>
    cases party with
    | main =>
      cases started : o.started with
      | false =>
        simp only [PumpWorld.step, pumpServe, started]
        exact .never refused
      | true =>
        simp only [PumpWorld.step, pumpServe, started]
        exact .started (k := (2, 0)) quiet le_rfl
    | thread => exact .starts refused quiet
  | @started main k quiet turns =>
    cases party with
    | main =>
      rcases PumpWorld.step_main o ⟨main, pumpThreadAt o k.2⟩ with stay | ⟨c, next, answer, shared,
        asks, served, moved⟩
      · rw [stay]
        exact .started (k := (k.1 + 1, k.2)) quiet (by omega)
      · cases asks
        rw [moved, pumpServe_quiet quiet.1 served]
        exact .started (k := (k.1 + 1, k.2)) (quiet.2 answer) (by omega)
    | thread =>
      have turn : pumpTurn k .thread = (k.1, k.2 + 1) := if_pos turns
      change PumpPlace o ⟨main, pumpThreadStep o (pumpThreadAt o k.2)⟩ _
      rw [turn, ← pumpThreadAt_succ]
      exact .started (k := (k.1, k.2 + 1)) quiet turns
  | @never main s k unread =>
    cases party with
    | main =>
      rcases PumpWorld.step_main o ⟨main, s⟩ with stay | ⟨c, next, answer, shared, asks, -, moved⟩
      · rw [stay]
        exact .never unread
      · cases asks
        rw [moved]
        exact .never (unread.2 answer)
    | thread => exact .never unread

section
variable (o : PumpOutcome) (storageBase storageSize bufferSize : Word)
  (stopRequested initDone initFailed : Bool)

theorem pumpPlace_start : PumpPlace o
    (pumpStarts storageBase storageSize bufferSize stopRequested initDone initFailed) (0, 0) := by
  rw [pumpStarts, nxmtGpuPumpStart]
  split
  · exact .never (uses_pure _)
  dsimp only
  split
  · exact .never (uses_pure _)
  refine .creates (uses_pure _) rfl ?_ ?_ rfl
  · exact ⟨by decide, fun _ => trivial⟩
  · have quiet : ∀ c ∈ [PumpCall.initDone, .initFailed, .threadWaitForExit, .threadClose],
        c.Quiet := by
      simp [PumpCall.Quiet]
    change Uses PumpCall.Quiet (pollInitDone 50 >>= _)
    refine uses_bind (pollInitDone_uses (quiet _ (by simp)) 50) fun _ =>
      ⟨quiet _ (by simp), fun failed => ?_⟩
    cases failed with
    | true => exact ⟨quiet _ (by simp), fun _ => ⟨quiet _ (by simp), fun _ => trivial⟩⟩
    | false => exact trivial

theorem run_place (schedule : List PumpParty) : PumpPlace o
    ((pumpStarts storageBase storageSize bufferSize stopRequested initDone initFailed).run
      o schedule) (schedule.foldl pumpTurn (0, 0)) := by
  induction schedule using List.reverseRecOn with
  | nil =>
    exact pumpPlace_start o storageBase storageSize bufferSize stopRequested initDone initFailed
  | append_singleton schedule party ih =>
    rw [PumpWorld.run_concat, List.foldl_append]
    exact ih.step party

theorem run_settled_iff (schedule : List PumpParty)
    (reads : ((pumpStarts storageBase storageSize bufferSize stopRequested initDone initFailed).run
      o schedule).ReadsInitFailed) :
    ((pumpStarts storageBase storageSize bufferSize stopRequested initDone initFailed).run
      o schedule).shared.thread.Settled ↔
        o.setupSteps + (if o.setupOk then 1 else 2) ≤ turnsSinceStart schedule := by
  obtain ⟨next, reads⟩ := reads
  have place := run_place o storageBase storageSize bufferSize stopRequested initDone initFailed
    schedule
  rw [turnsSinceStart]
  generalize (pumpStarts storageBase storageSize bufferSize stopRequested initDone initFailed).run
    o schedule = w at place reads ⊢
  generalize schedule.foldl pumpTurn (0, 0) = k at place ⊢
  cases place with
  | creates | starts => cases reads
  | started => exact pumpThreadAt_settled_iff o k.2
  | never unread =>
    cases reads
    exact absurd rfl unread.1

end

/-! ### What the answer is worth -/

section
variable (o : PumpOutcome) (storageBase storageSize bufferSize : Word)
  (stopRequested initDone initFailed : Bool) (schedule : List PumpParty)

theorem run_undecided :
    ((pumpStarts storageBase storageSize bufferSize stopRequested initDone initFailed).run
      o schedule).Undecided :=
  PumpWorld.run_inv o (PumpWorld.step_undecided o) schedule
    (.inl (nxmtGpuPumpStart_decided storageBase storageSize bufferSize stopRequested))

theorem run_flagTold
    (reads : ((pumpStarts storageBase storageSize bufferSize stopRequested initDone initFailed).run
      o schedule).ReadsInitFailed) :
    ((pumpStarts storageBase storageSize bufferSize stopRequested initDone initFailed).run
      o schedule).shared.FlagTold := by
  obtain ⟨next, reads⟩ := reads
  have fresh := PumpWorld.run_inv o (PumpWorld.step_fresh o fun c next =>
    nxmtGpuPumpStart_first storageBase storageSize bufferSize stopRequested) schedule
    (w := pumpStarts storageBase storageSize bufferSize stopRequested initDone initFailed)
    (.inl rfl)
  refine fresh.resolve_left fun start => ?_
  have create := nxmtGpuPumpStart_first storageBase storageSize bufferSize stopRequested
    (start.symm.trans reads)
  cases create

/-- In any interleaving `nxmt_gpu_pump_start` returns true only once `pump_setup` has
succeeded, if and only if `pump_setup` has returned, and a failure has been stored, by the
time that it reads `g_pump_init_failed`; that is, if the thread has had turns enough for it
since it was started. -/
theorem nxmtGpuPumpStart_initialised_iff :
    let start := pumpStarts storageBase storageSize bufferSize stopRequested initDone initFailed
    ((∀ p, p <+: schedule → (start.run o p).returned = some true →
        (start.run o p).shared.thread.Initialised) ↔
      ∀ p, p ++ [.main] <+: schedule → (start.run o p).ReadsInitFailed →
        (start.run o p).shared.thread.Settled) ∧
    ∀ p, (start.run o p).ReadsInitFailed → ((start.run o p).shared.thread.Settled ↔
      o.setupSteps + (if o.setupOk then 1 else 2) ≤ turnsSinceStart p) := by
  intro start
  refine ⟨?_, run_settled_iff o storageBase storageSize bufferSize stopRequested initDone initFailed⟩
  have undecided := run_undecided o storageBase storageSize bufferSize stopRequested initDone
    initFailed
  have told := run_flagTold o storageBase storageSize bufferSize stopRequested initDone initFailed
  constructor
  · intro sound p turn reads
    by_cases set : (start.run o p).shared.initFailed = true
    · exact .inr ((told p reads).1 set)
    · -- the read ends the call with true
      obtain ⟨next, asks⟩ := reads
      have clear : (start.run o p).shared.initFailed = false := Bool.eq_false_of_not_eq_true set
      have decided := undecided p
      rw [PumpWorld.Undecided, asks] at decided
      have ends := (decided.resolve_right (by simp) false).1 rfl
      have last : start.run o (p ++ [.main]) = ⟨.done true, (start.run o p).shared⟩ := by
        rw [PumpWorld.run_concat, ← ends, ← clear]
        simp only [PumpWorld.step, asks, pumpServe]
      have succeeded := sound _ turn (by rw [last]; rfl)
      rw [last] at succeeded
      exact .inl succeeded
  · intro settled p
    induction p using List.reverseRecOn with
    | nil =>
      intro _ returned
      have decided := nxmtGpuPumpStart_decided storageBase storageSize bufferSize stopRequested
      have ends : nxmtGpuPumpStart storageBase storageSize bufferSize stopRequested = .done true :=
        PumpWorld.returned_eq_true returned
      rw [ends] at decided
      exact absurd rfl decided
    | append_singleton p party ih =>
      intro turn returned
      rw [PumpWorld.run_concat] at returned ⊢
      refine PumpWorld.step_initialised o (undecided p) (told p) ?_
        (ih ((List.prefix_append p [party]).trans turn)) returned
      rintro rfl
      exact settled p turn

end

/-- One step of `pump_setup` for each poll. After the last poll `nxmt_gpu_pump_start`
returns true, and the setup goes on to fail. -/
theorem nxmtGpuPumpStart_tooSoon :
    let o : PumpOutcome := ⟨true, true, 100, false⟩
    let start := pumpStarts 0x10000 0x10000000 0x4000000 true false false
    let polls : List PumpParty :=
      [.main, .main] ++ (List.replicate 50 [.main, .thread]).flatten ++ [.main]
    let w := start.run o polls
    w.returned = some true ∧ w.shared = ⟨.setup 50, false, false⟩ ∧
      ¬ w.shared.thread.Initialised ∧
      (w.run o (List.replicate 53 .thread)).shared = ⟨.exited, true, true⟩ := by
  unfold PumpThread.Initialised
  decide

end NxMemTest
