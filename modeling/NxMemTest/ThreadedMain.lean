import NxMemTest.ThreadedPass
import NxMemTest.Verdict

/-! The whole run with its threads, from the carve-out to the final status. -/

namespace NxMemTest
open Interaction Program Setting

def PassEnds (s : Scene) :
    Option (Bool × Threaded.Locals) → Option (Bool × RunState) → ThreadWorld → Prop
  | none, r', _ => r' = none
  | some (goes_on, l), r', w => ∃ stop, r' = some (goes_on, l.state stop) ∧
      ({ s with stop := stop } : Scene).idle.Shows w

section
variable {s : Scene} {c : MainConfig} {cpuMap : List Int}

theorem passEnds_pure (goes_on : Bool) (l : Threaded.Locals) :
    threads.Refines s.idle.Shows (pure (some (goes_on, l)))
      (pure (some (goes_on, l.state s.stop)) : Main _) (PassEnds s) :=
  .of_pure (Scene.keeps_shows _) fun _ shows => ⟨s.stop, rfl, shows⟩

theorem passEnds_none : threads.Refines (fun _ => True) (pure none) (pure none : Main _)
    (PassEnds s) :=
  .of_pure (fun _ _ _ _ => trivial) fun _ _ => rfl

theorem passEnds_closeAll (ctx : Nat → NxmtWorkerContext) (created : Nat) (l : Threaded.Locals) :
    threads.Refines (s.making ctx created).Shows
      (do Threaded.forEach Threaded.close 0 created; pure (some (false, l)))
      (pure (some (false, l.state s.stop)) : Main _) (PassEnds s) := by
  have closes := refines_closeAll s ctx created 0
  rw [Scene.closing_making] at closes
  refine .silent closes fun _ => (passEnds_pure false l).pre fun w shows => ?_
  exact shows.idle (Scene.closing_shut s ctx created 0 (Nat.zero_le _))

theorem passEnds_verdict (l : Threaded.Locals) :
    threads.Refines s.idle.Shows
      (if l.totals.status = .fail then pure (some (false, l))
        else do
          let stop ← call ThreadCall.loadStop
          if stop then pure (some (false, l))
          else if c.durationMs = 0 then pure (some (false, l))
          else pure (some (true, { l with passIndex := l.passIndex + 1 })))
      (if (l.state s.stop).totals.status = .fail ∨ (l.state s.stop).stopRequested ∨ c.durationMs = 0
        then pure (some (false, l.state s.stop))
        else pure (some (true,
          { l.state s.stop with passIndex := (l.state s.stop).passIndex + 1 })) : Main _)
      (PassEnds s) := by
  by_cases fail : l.totals.status = .fail
  · rw [if_pos fail, if_pos (.inl fail)]
    exact passEnds_pure false l
  rw [if_neg fail]
  refine .silent (refines_loadStop s.idle) fun stop => .of_and fun same => ?_
  obtain rfl : stop = s.stop := same
  by_cases up : s.stop = true
  · rw [if_pos up, if_pos (.inr (.inl up))]
    exact passEnds_pure false l
  rw [if_neg up]
  by_cases untimed : c.durationMs = 0
  · rw [if_pos untimed, if_pos (.inr (.inr untimed))]
    exact passEnds_pure false l
  · rw [if_neg untimed, if_neg]
    · exact passEnds_pure true { l with passIndex := l.passIndex + 1 }
    · rintro (h | h | h)
      · exact fail h
      · exact up h
      · exact untimed h

theorem refines_pass (apart : ∀ k < c.workers.toNat, s.pump ≠ some (cpuOf cpuMap k))
    (testStarted : Word) (fuel : Nat) (l : Threaded.Locals) :
    threads.Refines s.idle.Shows (Threaded.pass c cpuMap testStarted fuel l)
      (mainPass c testStarted fuel (l.state s.stop)) (PassEnds s) := by
  let ctx := workerContext c c.workers l.passIndex true
  refine .silent (refines_loadStop s.idle) fun stop => .of_and fun same => ?_
  obtain rfl : stop = s.stop := same
  refine .ite (fun _ => passEnds_pure false l) fun down => ?_
  replace down : s.stop = false := Bool.not_eq_true _ ▸ down
  refine .bind (refines_timerExpired s.idle _ _) fun expired expired' => .of_and fun same => ?_
  subst same
  refine .ite (fun _ => passEnds_pure false l) fun _ => ?_
  refine .silent (refines_initFinished fun _ => rfl) fun _ => ?_
  rw [← Scene.making_zero s ctx]
  refine .bind (refines_callEach (S := s.making ctx) (n := c.workers.toNat)
    (fun k inside => refines_create (apart k inside)) 0 _ (Nat.zero_add _)) fun r r' =>
      .of_and fun made => ?_
  obtain ⟨created, createdThreads⟩ := r
  obtain ⟨rfl, few, all⟩ := made
  cases created with
  | false => exact passEnds_closeAll ctx createdThreads { l with threadFallback := true }
  | true =>
    obtain rfl : createdThreads = c.workers.toNat := all rfl
    rw [← Scene.starting_zero]
    refine .bind (refines_callEach (S := s.starting ctx c.workers.toNat) (n := c.workers.toNat)
      (fun k inside => refines_start inside) 0 _ (Nat.zero_add _)) fun r r' => .of_and fun made => ?_
    obtain ⟨startedAll, started⟩ := r
    obtain ⟨rfl, few, -⟩ := made
    refine .ite (fun gave_up => ?_) fun _ => ?_
    · obtain rfl : started = 0 := of_decide_eq_true (Bool.and_eq_true_iff.1 gave_up).2
      rw [Scene.starting_zero]
      exact passEnds_closeAll ctx _ { l with threadFallback := true }
    refine .bind (refines_waitWorkers (s.starting ctx c.workers.toNat started) down c.durationMs
      testStarted started fuel) fun ended ended' => .of_and fun same => ?_
    subst same
    cases ended' with
    | none => exact passEnds_none.pre fun _ _ => trivial
    | some ended =>
      let after : Scene := { s with stop := decide (ended ≠ .finished) }
      let l' : Threaded.Locals :=
        { l with userAborted := l.userAborted || decide (ended = .userAbort) }
      refine Refines.pre (P := (after.starting ctx c.workers.toNat started).Shows) ?_
        fun w shows => shows ended rfl
      refine .bind (refines_finish few l') fun l'' st'' => .of_and fun same => ?_
      subst same
      refine (passEnds_verdict (s := after) l'').conseq (fun _ shows => shows) fun r r' w ends => ?_
      cases r with
      | none => exact ends
      | some r => exact ends

def LoopEnds (s : Scene) : Option Threaded.Locals → Option RunState → ThreadWorld → Prop
  | none, r', _ => r' = none
  | some l, r', w => ∃ stop, r' = some (l.state stop) ∧
      ({ s with stop := stop } : Scene).idle.Shows w

theorem refines_loop (apart : ∀ k < c.workers.toNat, s.pump ≠ some (cpuOf cpuMap k))
    (testStarted : Word) (fuel : Nat) (l : Threaded.Locals) :
    threads.Refines s.idle.Shows (Threaded.loop c cpuMap testStarted fuel l)
      (mainLoop c testStarted fuel (l.state s.stop)) (LoopEnds s) := by
  induction fuel generalizing s l with
  | zero => exact .of_pure (Scene.keeps_shows _) fun _ _ => rfl
  | succ fuel ih =>
    refine .bind (refines_pass apart testStarted fuel l) fun r r' => ?_
    cases r with
    | none =>
      refine Refines.pre (P := fun _ => r' = none ∧ True) (.of_and ?_) fun w ends => ⟨ends, trivial⟩
      rintro rfl
      exact .of_pure (fun _ _ _ _ => trivial) fun _ _ => rfl
    | some turn =>
      obtain ⟨goes_on, l'⟩ := turn
      refine .of_exists fun stop => .of_and fun same => ?_
      subst same
      let after : Scene := { s with stop := stop }
      cases goes_on with
      | false => exact .of_pure (Scene.keeps_shows _) fun w shows => ⟨stop, rfl, shows⟩
      | true =>
        refine (ih (s := after) apart l').conseq (fun _ shows => shows) fun r r' w ends => ?_
        cases r with
        | none => exact ends
        | some l => exact ends

theorem refines_ofRunner {α : Type} (p : Runner α) :
    threads.Refines s.idle.Shows (Threaded.ofRunner p) (pure () : Main Unit) fun a _ w =>
      (∃ t, Path p t a ∧ (s.stop = false → Quiet t)) ∧ s.idle.Shows w := by
  induction p with
  | done a => exact .of_pure (Scene.keeps_shows _) fun w shows => ⟨⟨[], .done a, fun _ => quiet_nil⟩, shows⟩
  | ask call next ih =>
    refine .silent (refines_silent (c := .runner call)
      (Q := fun r w => Heard s.stop ⟨call, r⟩ ∧ s.idle.Shows w) (Scene.keeps_shows _)
      (fun w shows worker => Scene.Shows.handle_closed (s := s.idle) shows trivial)
      (fun w r w' shows answer => ?_)
      fun r w w' h turn => ⟨h.1, Scene.keeps_shows _ w w' h.2 turn⟩) fun r => .of_and fun heard => ?_
    · obtain ⟨heard, rfl⟩ := answer
      exact ⟨shows.stop ▸ heard, shows⟩
    · refine (ih r).conseq (fun _ shows => shows) ?_
      rintro a _ w ⟨⟨t, path, quiet⟩, shows⟩
      refine ⟨⟨⟨call, r⟩ :: t, .ask path, fun down => (quiet_cons _ _).2 ⟨?_, quiet down⟩⟩, shows⟩
      cases call with
      | stopRequested =>
        rw [down] at heard
        exact heard
      | _ => rfl

theorem refines_fallback (l : Threaded.Locals) :
    threads.Refines s.idle.Shows (Threaded.fallback c l) (runFallback c (l.state s.stop))
      fun l' st' w => ∃ stop, st' = l'.state stop ∧ ({ s with stop := stop } : Scene).idle.Shows w := by
  refine .ite (fun _ => ?_) fun _ => .of_pure (Scene.keeps_shows _) fun w shows =>
    ⟨s.stop, rfl, shows⟩
  let after : Scene := { s with stop := false }
  refine .silent (refines_lower fun _ => rfl) fun _ => ?_
  refine .silent (refines_ofRunner (s := after) _) fun ctx => .of_and fun ran => ?_
  obtain ⟨t, path, quiet⟩ := ran
  have run : ∀ worker : Fin 1, ∃ run : WorkerRun (workerContext c 1 l.passIndex false worker) false,
      run.result = ctx := by
    intro worker
    obtain rfl : worker = 0 := Subsingleton.elim _ _
    exact ⟨⟨t, ctx, path, quiet⟩, rfl⟩
  choose runs results using run
  refine .choose (r := runs) (.of_pure (Scene.keeps_shows _) fun w shows => ⟨false, ?_, shows⟩)
  have single : List.finRange 1 = [0] := by decide
  simp only [single, List.foldl_cons, List.foldl_nil, results]
  rfl

end

/-! ### The helpers beside the workers -/

section
variable {s : Scene}

theorem refines_gpuPumpStart (storage region : Word) (core : Int) (down : s.stop = false)
    (free : s.pump = none) :
    threads.Refines s.idle.Shows (call (ThreadCall.gpuPumpStart storage region core))
      (Main.gpuPumpStart storage region) fun ok ok' w => ok' = ok ∧
        ({ s with pump := if ok then some core else none } : Scene).idle.Shows w := by
  refine .of_call (Scene.keeps_shows _) (fun w shows => ⟨shows.pump.trans free,
    shows.stop.trans down, fun worker => Scene.Shows.handle_closed (s := s.idle) shows trivial⟩)
    (fun w ok w' shows answer => ?_) fun ok ok' w w' h turn =>
      ⟨h.1, Scene.keeps_shows _ w w' h.2 turn⟩
  refine ⟨[⟨.gpuPumpStart storage region, ok⟩], ok,
    path_call.2 rfl, rfl, ?_⟩
  rw [answer]
  cases ok with
  | false => exact ⟨shows.stop, shows.pump.trans free, shows.filler, shows.fits⟩
  | true => exact ⟨shows.stop, rfl, shows.filler, shows.fits⟩

theorem refines_cpuFillerStart {core : Int} (down : s.stop = false) (pump : s.pump = some core)
    (free : s.filler = none) :
    threads.Refines s.idle.Shows (call (ThreadCall.cpuFillerStart core)) (pure () : Main Unit)
      fun ok _ w => ({ s with filler := if ok then some core else none } : Scene).idle.Shows w := by
  refine refines_silent (c := .cpuFillerStart core)
    (Q := fun ok w => ({ s with filler := if ok then some core else none } : Scene).idle.Shows w)
    (Scene.keeps_shows _) (fun w shows => ⟨shows.filler.trans free, shows.pump.trans pump,
      shows.stop.trans down⟩) (fun w ok w' shows answer => ?_) fun _ => Scene.keeps_shows _
  rw [answer]
  cases ok with
  | false => exact ⟨shows.stop, shows.pump, shows.filler.trans free, shows.fits⟩
  | true => exact ⟨shows.stop, shows.pump, rfl, shows.fits⟩

theorem refines_stopFiller {active : Bool} (up : s.stop = true)
    (started : s.filler ≠ none ↔ active = true) :
    threads.Refines s.idle.Shows
      (Threaded.stopIf active (call ThreadCall.cpuFillerStop)) (pure () : Main Unit)
      fun _ _ w => ({ s with filler := none } : Scene).idle.Shows w := by
  unfold Threaded.stopIf
  split
  · rename_i on
    refine refines_silent (c := .cpuFillerStop)
      (Q := fun _ w => ({ s with filler := none } : Scene).idle.Shows w) (Scene.keeps_shows _)
      (fun w shows => ⟨fun none => started.2 on (shows.filler.symm.trans none),
        shows.stop.trans up⟩) (fun w _ w' shows answer => ?_) fun _ => Scene.keeps_shows _
    rw [answer]
    exact ⟨shows.stop, shows.pump, rfl, shows.fits⟩
  · rename_i off
    have free : s.filler = none := not_not.1 (mt started.1 off)
    exact .of_pure (Scene.keeps_shows _) fun w shows =>
      ⟨shows.stop, shows.pump, shows.filler.trans free, shows.fits⟩

theorem refines_stopPump {active : Bool} (up : s.stop = true)
    (started : s.pump ≠ none ↔ active = true) :
    threads.Refines s.idle.Shows
      (Threaded.stopIf active (call ThreadCall.gpuPumpStop)) (pure () : Main Unit)
      fun _ _ w => ({ s with pump := none } : Scene).idle.Shows w := by
  unfold Threaded.stopIf
  split
  · rename_i on
    refine refines_silent (c := .gpuPumpStop)
      (Q := fun _ w => ({ s with pump := none } : Scene).idle.Shows w) (Scene.keeps_shows _)
      (fun w shows => ⟨fun none => started.2 on (shows.pump.symm.trans none),
        shows.stop.trans up⟩) (fun w _ w' shows answer => ?_) fun _ => Scene.keeps_shows _
    rw [answer]
    exact ⟨shows.stop, rfl, shows.filler, shows.fits⟩
  · rename_i off
    have free : s.pump = none := not_not.1 (mt started.1 off)
    exact .of_pure (Scene.keeps_shows _) fun w shows =>
      ⟨shows.stop, shows.pump.trans free, shows.filler, shows.fits⟩

theorem refines_gpuPumpErrBatches (stopped : s.pump = none) :
    threads.Refines s.idle.Shows (call ThreadCall.gpuPumpErrBatches) Main.gpuPumpErrBatches
      fun r r' w => r' = r ∧ s.idle.Shows w :=
  refines_same (Scene.keeps_shows _) (fun _ shows => shows.pump.trans stopped) (fun _ _ _ same => same)
    fun r => ⟨[⟨.gpuPumpErrBatches, r⟩], path_call.2 rfl⟩

end

/-- The helpers that the scene says are there are those that have been carved out for, and
no worker is on their core. -/
structure Beside (cpuMap : List Int) (carved : Threaded.Carved) (s : Scene) : Prop where
  pump : s.pump ≠ none ↔ carved.gpuPumpActive = true
  filler : s.filler ≠ none ↔ carved.cpuFillerActive = true
  apart : ∀ k < carved.workers.toNat, s.pump ≠ some (cpuOf cpuMap k)

section
variable {s : Scene} (mask : Word)

theorem workers_toNat : (BitVec.ofNat 32 (workerCpuMap mask).length).toNat =
    (workerCpuMap mask).length := by
  have few := (workerCpuMap_length mask).2
  rw [BitVec.toNat_ofNat, Nat.mod_eq_of_lt]
  have : nxmtMaxWorkers < 2 ^ 32 := by decide
  omega

theorem beside_none (arena : NxmtArena) (workers : BitVec 32) (pump : s.pump = none)
    (filler : s.filler = none) : Beside (workerCpuMap mask) ⟨arena, workers, false, false⟩ s :=
  ⟨by simp [pump], by simp [filler], fun k _ => by simp [pump]⟩

theorem refines_carveOut (mode : NxmtMode) (arena : NxmtArena) (pump : s.pump = none)
    (filler : s.filler = none) :
    let workers := BitVec.ofNat 32 (workerCpuMap mask).length
    threads.Refines s.idle.Shows (Threaded.carveOut mode arena (workerCpuMap mask) workers)
      (gpuCarveOut mode arena workers) fun carved r' w =>
        r' = (carved.cpuArena, carved.workers) ∧
          ∃ s, Beside (workerCpuMap mask) carved s ∧ s.idle.Shows w := by
  intro workers
  refine .ite (fun large => ?_) fun _ => .of_pure (Scene.keeps_shows _) fun w shows =>
    ⟨rfl, s, beside_none mask arena workers pump filler, shows⟩
  have two : 2 ≤ workers.toNat := large.2.2
  have count : workers.toNat = (workerCpuMap mask).length := workers_toNat mask
  have fewer : (workers - 1).toNat = workers.toNat - 1 := by
    have one : (1 : BitVec 32).toNat = 1 := rfl
    rw [BitVec.toNat_sub_of_le (by rw [BitVec.le_def]; omega), one]
  let down : Scene := { s with stop := false }
  refine .silent (refines_lower fun _ => rfl) fun _ => ?_
  refine .bind (refines_gpuPumpStart (s := down) _ _ _ rfl pump) fun ok ok' => .of_and fun same => ?_
  subst same
  cases ok' with
  | false =>
    let failed : Scene := { down with pump := none }
    exact .of_pure (Scene.keeps_shows _) fun w shows =>
      ⟨rfl, failed, beside_none mask arena workers rfl filler, shows⟩
  | true =>
    let pumping : Scene := { down with pump := some (cpuOf (workerCpuMap mask) (workers - 1).toNat) }
    refine .silent (refines_cpuFillerStart (s := pumping) rfl rfl filler) fun ok => ?_
    refine .of_pure (Scene.keeps_shows _) fun w shows => ⟨rfl, _, ⟨?_, ?_, fun k inside => ?_⟩, shows⟩
    · simp [pumping]
    · cases ok <;> simp
    · dsimp only at inside
      refine fun same => @cpuOf_ne mask _ _ ?_ ?_ ?_ (Option.some.inj same).symm <;> omega

end

def ThreadWorld.Idle (w : ThreadWorld) : Prop :=
  w.AllClosed ∧ w.pumpCore = none ∧ w.fillerCore = none

/-- Both runs have ended with the same result, up to the stop flag, which is up at the end
of the run with threads; no thread is left. -/
def RunEnds : Option MainResult → Option MainResult → ThreadWorld → Prop
  | none, r', _ => r' = none
  | some result, r', w => w.Idle ∧ w.stop = true ∧ result.state.stopRequested = true ∧
      ∃ stop, r' = some { result with state := { result.state with stopRequested := stop } }

theorem Scene.Shows.of_idle {w : ThreadWorld} (idle : w.Idle) :
    (⟨fun _ => .closed, w.stop, none, none⟩ : Scene).Shows w :=
  ⟨rfl, idle.2.1, idle.2.2, fun worker => by rw [idle.1 worker]; trivial⟩

theorem refines_ending {s : Scene} {c : MainConfig} {cpuMap : List Int} {carved : Threaded.Carved}
    (beside : Beside cpuMap carved s) (testStarted : Word) (l : Threaded.Locals) :
    threads.Refines s.idle.Shows
      (do
        let l ← Threaded.fallback c l
        call (ThreadCall.storeStop true)
        Threaded.stopIf carved.cpuFillerActive (call ThreadCall.cpuFillerStop)
        Threaded.stopIf carved.gpuPumpActive (call ThreadCall.gpuPumpStop)
        let gpuErrBatches ← call ThreadCall.gpuPumpErrBatches
        let status := finalStatus l.userAborted gpuErrBatches l.totals.report l.totals.status
        let stop ← call ThreadCall.loadStop
        pure (some (⟨status,
          ⟨l.totals, l.passesCompleted, l.passIndex, stop, l.userAborted, l.threadFallback⟩, c,
          testStarted, gpuErrBatches⟩ : MainResult)))
      (do
        let st ← runFallback c (l.state s.stop)
        let gpuErrBatches ← Main.gpuPumpErrBatches
        pure (some ⟨finalStatus st.userAborted gpuErrBatches st.totals.report st.totals.status, st,
          c, testStarted, gpuErrBatches⟩)) RunEnds := by
  refine .bind (refines_fallback l) fun l' st' => .of_exists fun stop => .of_and fun same => ?_
  subst same
  let up : Scene := { s with stop := true }
  refine .silent (refines_raise ({ s with stop := stop } : Scene).idle) fun _ => ?_
  refine .silent (refines_stopFiller (s := up) rfl beside.filler) fun _ => ?_
  refine .silent (refines_stopPump (s := { up with filler := none }) rfl beside.pump) fun _ => ?_
  let bare : Scene := { up with filler := none, pump := none }
  refine .bind (refines_gpuPumpErrBatches (s := bare) rfl) fun batches batches' => .of_and fun same => ?_
  subst same
  refine .silent (refines_loadStop bare.idle) fun stop => .of_and fun same => ?_
  obtain rfl : stop = true := same
  exact .of_pure (Scene.keeps_shows _) fun w shows =>
    ⟨⟨fun worker => Scene.Shows.handle_closed (s := bare.idle) shows trivial, shows.pump, shows.filler⟩,
      shows.stop, rfl, _, rfl⟩

theorem refines_run (mode : NxmtMode) (seed durationMs : Word) (arena : NxmtArena) (mask : Word)
    (report : NxmtReport) (fuel : Nat) :
    threads.Refines ThreadWorld.Idle (Threaded.run mode seed durationMs arena mask report fuel)
      (mainRun mode seed durationMs arena (BitVec.ofNat 32 (workerCpuMap mask).length) report fuel)
      RunEnds := by
  refine Refines.pre (P := fun w => ∃ stop, (⟨fun _ => .closed, stop, none, none⟩ : Scene).Shows w)
    (.of_exists fun stop => ?_) fun w idle => ⟨w.stop, .of_idle idle⟩
  refine .bind (refines_carveOut (s := ⟨fun _ => .closed, stop, none, none⟩) mask mode arena rfl rfl)
    fun carved r' => .of_and fun same => .of_exists fun s => .of_and fun beside => ?_
  subst same
  refine .bind (refines_ticksMs s.idle) fun testStarted testStarted' => .of_and fun same => ?_
  subst same
  let c : MainConfig := ⟨mode, seed, durationMs, carved.cpuArena, carved.workers⟩
  let down : Scene := { s with stop := false }
  refine .silent (refines_lower fun _ => rfl) fun _ => ?_
  refine .bind (refines_loop (s := down) (c := c) beside.apart testStarted' fuel _) fun r r' => ?_
  cases r with
  | none =>
    refine Refines.pre (P := fun _ => r' = none ∧ True) (.of_and ?_) fun w ends => ⟨ends, trivial⟩
    rintro rfl
    exact .of_pure (fun _ _ _ _ => trivial) fun _ _ => rfl
  | some l =>
    refine .of_exists fun stop => .of_and fun same => ?_
    subst same
    exact refines_ending (s := { s with stop := stop }) ⟨beside.pump, beside.filler, beside.apart⟩
      testStarted' l

def ThreadWorld.fresh : ThreadWorld :=
  ⟨true, 0, fun _ => ⟨⟨0, 0, 0⟩, ⟨.quick, 0, 0, 0, 0, false, false, false⟩, zeroReport,
    ⟨0, 0, 0, .fixedA⟩, .unsupported⟩, fun _ => .closed, none, none⟩

theorem ThreadWorld.fresh_idle : ThreadWorld.fresh.Idle := ⟨fun _ => rfl, rfl, rfl⟩

/-! ### Two workers on a page -/

theorem canEnd_exit (worker : Nat) {left : Runner NxmtWorkerContext}
    {u : List (Event Call.Answer)} {a : NxmtWorkerContext} (path : Path left u a) {w : ThreadWorld}
    {t : Thread} (running : w.handles worker = .running t) (here : t.left = left)
    (heard : ∀ e ∈ u, Heard w.stop e) {α : Type} {p : Threaded α} {Q : α → Prop}
    (ends : ∀ x : ExitedThread, threads.CanEnd p { w.setHandle worker (.exited x) with
        finished := w.finished + 1
        contexts := Function.update w.contexts worker a } Q) : threads.CanEnd p w Q := by
  induction path generalizing w t with
  | done a => exact .of_comes (.turn (.exit running here) (.here p _)) (ends (t.exit here))
  | @ask c next r u a path ih =>
    have turned : (w.setHandle worker (.running (t.turn here r))).handles worker =
        .running (t.turn here r) := by
      simp [ThreadWorld.setHandle]
    refine .of_comes (.turn (.ask running here r (heard _ List.mem_cons_self)) (.here p _))
      (ih turned rfl (fun e he => heard e (List.mem_cons_of_mem _ he)) fun x => ?_)
    simp only [ThreadWorld.setHandle, Function.update_idem]
    exact ends x

def onePage : NxmtArena := ⟨0x1000, 0x1000, 512⟩

def onePageContext (worker : Nat) : NxmtWorkerContext :=
  workerContext ⟨.quick, 7, 0, onePage, 2⟩ 2 0 true worker

def onePageResult (worker : Nat) : NxmtWorkerContext :=
  (exec (calmServe false) (nxmtWorkerEntry (onePageContext worker)) ()).1

theorem onePage_path (worker : Nat) : ∃ t, Path (nxmtWorkerEntry (onePageContext worker)) t
    (onePageResult worker) ∧ ∀ e ∈ t, Heard false e := by
  refine ⟨_, path_trace (calmServe false) _ (), fun e he => ?_⟩
  have quiet := calmServe_quiet _ e he
  obtain ⟨c, r⟩ := e
  cases c with
  | stopRequested => exact quiet
  | _ => trivial

def onePageTotals : Totals :=
  mergeWorkerContext (onePageResult 1) (mergeWorkerContext (onePageResult 0) (initTotals zeroReport))

theorem onePageTotals_pass :
    (onePageTotals.status, onePageTotals.totalStats.bytesVerified) = (.pass, 12288) := by
  decide +kernel

theorem onePage_canEnd : threads.CanEnd (Threaded.run .quick 7 0 onePage 3 zeroReport 3) .fresh
    fun ended => ∃ result, ended = some result ∧ result.state.totals = onePageTotals := by
  obtain ⟨t, path, heard⟩ := onePage_path 0
  obtain ⟨t', path', heard'⟩ := onePage_path 1
  have pass : onePageTotals.status = .pass := congrArg Prod.fst onePageTotals_pass
  have clean : onePageTotals.status ≠ .fail := by
    rw [pass]
    decide
  refine .answer (b := ThreadCall.ticksMs) (r := (0 : Word)) rfl ?_
  refine .answer (b := ThreadCall.storeStop false) (r := ()) rfl ?_
  refine .answer (b := ThreadCall.loadStop) (r := false) ⟨rfl, rfl⟩ ?_
  refine .answer (b := ThreadCall.initFinished) (r := ()) rfl ?_
  refine .answer (b := ThreadCall.initContext 0 (onePageContext 0)) (r := ()) rfl ?_
  refine .answer (b := ThreadCall.threadCreate 0 0) (r := true) rfl ?_
  refine .answer (b := ThreadCall.initContext 1 (onePageContext 1)) (r := ()) rfl ?_
  refine .answer (b := ThreadCall.threadCreate 1 1) (r := true) rfl ?_
  refine .answer (b := ThreadCall.threadStart 0) (r := true) rfl ?_
  refine .answer (b := ThreadCall.threadStart 1) (r := true) rfl ?_
  refine .answer (b := ThreadCall.loadFinished) (r := (0 : BitVec 32)) ⟨rfl, rfl⟩ ?_
  refine .answer (b := ThreadCall.appletMainLoop) (r := true) rfl ?_
  refine .answer (b := ThreadCall.readPlus) (r := false) rfl ?_
  refine canEnd_exit 1 path' (t := .start (onePageContext 1)) rfl rfl heard' fun x' => ?_
  refine canEnd_exit 0 path (t := .start (onePageContext 0)) rfl rfl heard fun x => ?_
  refine .answer (b := ThreadCall.loadFinished) (r := (2 : BitVec 32)) ⟨rfl, rfl⟩ ?_
  refine .answer (b := ThreadCall.threadWaitForExit 0) (r := ()) ⟨⟨x, rfl⟩, rfl⟩ ?_
  refine .answer (b := ThreadCall.threadWaitForExit 1) (r := ()) ⟨⟨x', rfl⟩, rfl⟩ ?_
  refine .answer (b := ThreadCall.threadClose 0) (r := ()) rfl ?_
  refine .answer (b := ThreadCall.threadClose 1) (r := ()) rfl ?_
  refine .answer (b := ThreadCall.loadContext 0) (r := onePageResult 0) ⟨rfl, rfl⟩ ?_
  refine .answer (b := ThreadCall.loadContext 1) (r := onePageResult 1) ⟨rfl, rfl⟩ ?_
  change threads.CanEnd (Program.bind (Program.bind
    (if onePageTotals.status = .fail then _ else _) _) _) _ _
  rw [if_neg clean]
  refine .answer (b := ThreadCall.loadStop) (r := false) ⟨rfl, rfl⟩ ?_
  refine .answer (b := ThreadCall.storeStop true) (r := ()) rfl ?_
  refine .answer (b := ThreadCall.gpuPumpErrBatches) (r := (0 : Word)) rfl ?_
  refine .answer (b := ThreadCall.loadStop) (r := true) ⟨rfl, rfl⟩ ?_
  exact .done ⟨_, rfl, rfl⟩

/-- However main thread and workers interleave, and whatever clock, controller and memory
answer, a run with threads ends with what the run of the main loop can end with. It leaves
no thread behind, and the stop flag up. -/
theorem threadedRun_mainRun (mode : NxmtMode) (seed durationMs : Word) (arena : NxmtArena)
    (mask : Word) (report : NxmtReport) (fuel : Nat) {w w' : ThreadWorld} {result : MainResult}
    (idle : w.Idle)
    (ends : threads.Comes (Threaded.run mode seed durationMs arena mask report fuel) w
      (.done (some result)) w') :
    w'.Idle ∧ w'.stop = true ∧ ∃ stop t, Path
      (mainRun mode seed durationMs arena (BitVec.ofNat 32 (workerCpuMap mask).length) report fuel) t
      (some { result with state := { result.state with stopRequested := stop } }) := by
  obtain ⟨t, r', path, left, up, -, stop, rfl⟩ :=
    (refines_run mode seed durationMs arena mask report fuel w _ w' idle ends).2 _ rfl
  exact ⟨left, up, stop, t, path⟩

theorem threadedRun_mainRun_page : ∃ result w' stop t,
    (result.state.totals.status, result.state.totals.totalStats.bytesVerified) = (.pass, 12288) ∧
      threads.Comes (Threaded.run .quick 7 0 onePage 3 zeroReport 3) .fresh (.done (some result))
        w' ∧ w'.Idle ∧
      Path (mainRun .quick 7 0 onePage (BitVec.ofNat 32 (workerCpuMap 3).length) zeroReport 3) t
        (some { result with state := { result.state with stopRequested := stop } }) := by
  obtain ⟨ended, w', ⟨result, rfl, totals⟩, ends⟩ := onePage_canEnd
  obtain ⟨left, -, stop, t, path⟩ := threadedRun_mainRun .quick 7 0 onePage 3 zeroReport 3
    ThreadWorld.fresh_idle ends
  exact ⟨result, w', stop, t, totals ▸ onePageTotals_pass, ends, left, path⟩

end NxMemTest
