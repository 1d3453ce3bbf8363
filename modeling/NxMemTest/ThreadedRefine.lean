import NxMemTest.ThreadedWorld

/-! The run with its threads does what the run of the main loop does that takes the
workers of a pass for one call: part by part, from the calls up to a whole run. -/

namespace NxMemTest
open Interaction Program

namespace Scene
variable {s : Scene} {w : ThreadWorld}

theorem Shows.handle_closed {worker : Nat} (shows : s.Shows w) (shut : (s.stand worker).Shut) :
    w.handles worker = .closed := by
  have fits := shows.fits worker
  cases handle : w.handles worker with
  | closed => rfl
  | _ =>
    rw [handle] at fits
    cases stand : s.stand worker <;> rw [stand] at fits shut <;>
      first | exact shut.elim | exact fits.elim

theorem Shows.handle_created {worker : Nat} {ctx : NxmtWorkerContext} (shows : s.Shows w)
    (stand : s.stand worker = .created ctx) :
    w.handles worker = .created ∧ w.contexts worker = ctx := by
  have fits := shows.fits worker
  rw [stand] at fits
  cases handle : w.handles worker with
  | created =>
    rw [handle] at fits
    exact ⟨rfl, fits⟩
  | _ =>
    rw [handle] at fits
    exact fits.elim

theorem Shows.handle_started {worker : Nat} {ctx : NxmtWorkerContext} (shows : s.Shows w)
    (stand : s.stand worker = .started ctx) :
    (∃ t, w.handles worker = .running t) ∨ ∃ x, w.handles worker = .exited x := by
  have fits := shows.fits worker
  rw [stand] at fits
  cases handle : w.handles worker with
  | running t => exact .inl ⟨t, rfl⟩
  | exited x => exact .inr ⟨x, rfl⟩
  | _ =>
    rw [handle] at fits
    exact fits.elim

theorem Shows.handle_exited {worker : Nat} {ctx : NxmtWorkerContext} (shows : s.Shows w)
    (stand : s.stand worker = .exited ctx) : ∃ x, w.handles worker = .exited x ∧
      x.context = ctx ∧ w.contexts worker = x.result ∧ (s.stop = false → Quiet x.events) := by
  have fits := shows.fits worker
  rw [stand] at fits
  cases handle : w.handles worker with
  | exited x =>
    rw [handle] at fits
    exact ⟨x, rfl, fits⟩
  | _ =>
    rw [handle] at fits
    exact fits.elim

theorem Shows.change {s' : Scene} {worker : Nat} (shows : (s.setStand worker (s'.stand worker)).Shows w)
    (stop : s'.stop = s.stop) (pump : s'.pump = s.pump) (filler : s'.filler = s.filler)
    (others : ∀ other, other ≠ worker → s'.stand other = s.stand other) : s'.Shows w := by
  have same : s.setStand worker (s'.stand worker) = s' := by
    have stands : Function.update s.stand worker (s'.stand worker) = s'.stand := by
      funext other
      by_cases here : other = worker
      · subst here
        exact Function.update_self _ _ _
      · rw [Function.update_of_ne here, others other here]
    rw [Scene.setStand, stands, ← stop, ← pump, ← filler]
  rwa [same] at shows

theorem Shows.raise (shows : s.Shows w) :
    ({ s with stop := true } : Scene).Shows { w with stop := true } := by
  refine ⟨rfl, shows.pump, shows.filler, fun worker => ?_⟩
  have fits := shows.fits worker
  have up : ∀ {p : Prop}, true = false → p := fun down => absurd down (by decide)
  cases stand : s.stand worker <;> cases handle : w.handles worker <;>
    simp only [stand, handle] at fits ⊢ <;> try exact fits
  · exact ⟨fits.1, up⟩
  · exact ⟨fits.1, fits.2.1, up⟩
  · exact ⟨fits.1, fits.2.1, up⟩
  · obtain ⟨run, result⟩ := fits
    exact ⟨⟨run.events, run.result, run.path, up⟩, result⟩

theorem Shows.forget {s' : Scene} (shows : s.Shows w) (stop : s'.stop = s.stop)
    (pump : s'.pump = s.pump) (filler : s'.filler = s.filler)
    (weaker : ∀ worker, s'.stand worker = s.stand worker ∨
      (s.stand worker).Shut ∧ s'.stand worker = .closed) : s'.Shows w := by
  refine ⟨stop ▸ shows.stop, pump ▸ shows.pump, filler ▸ shows.filler, fun worker => ?_⟩
  rcases weaker worker with same | ⟨shut, closed⟩
  · rw [same, stop]
    exact shows.fits worker
  · rw [closed, shows.handle_closed shut]
    exact trivial

end Scene

/-! ### Single calls -/

section
variable {c : ThreadCall} {P : ThreadWorld → Prop}

theorem refines_same {h : Main c.Answer} (keeps : threads.Keeps P)
    (legal : ∀ w, P w → ThreadWorld.Legal c w)
    (same : ∀ w r w', ThreadWorld.answer c w r w' → w' = w) (ask : ∀ r, ∃ t, Path h t r) :
    threads.Refines P (call c) h fun r r' w => r' = r ∧ P w := by
  refine .of_call keeps legal (fun w r w' hP answer => ?_) fun r r' w w' h turn =>
    ⟨h.1, keeps w w' h.2 turn⟩
  obtain ⟨t, path⟩ := ask r
  exact ⟨t, r, path, rfl, same w r w' answer ▸ hP⟩

theorem refines_silent {Q : c.Answer → ThreadWorld → Prop} (keeps : threads.Keeps P)
    (legal : ∀ w, P w → ThreadWorld.Legal c w)
    (after : ∀ w r w', P w → ThreadWorld.answer c w r w' → Q r w')
    (kept : ∀ r, threads.Keeps (Q r)) :
    threads.Refines P (call c) (pure () : Main Unit) fun r _ w => Q r w :=
  .of_call keeps legal (fun w r w' hP answer => ⟨[], (), .done (), after w r w' hP answer⟩)
    fun r _ => kept r

end

section
variable (s : Scene)

theorem refines_ticksMs : threads.Refines s.Shows (call ThreadCall.ticksMs) Main.ticksMs
    fun r r' w => r' = r ∧ s.Shows w :=
  refines_same s.keeps_shows (fun _ _ => trivial) (fun _ _ _ same => same)
    fun r => ⟨[⟨.ticksMs, r⟩], path_call.2 rfl⟩

theorem refines_appletMainLoop :
    threads.Refines s.Shows (call ThreadCall.appletMainLoop) Main.appletMainLoop
      fun r r' w => r' = r ∧ s.Shows w :=
  refines_same s.keeps_shows (fun _ _ => trivial) (fun _ _ _ same => same)
    fun r => ⟨[⟨.appletMainLoop, r⟩], path_call.2 rfl⟩

theorem refines_readPlus : threads.Refines s.Shows (call ThreadCall.readPlus) Main.readPlus
    fun r r' w => r' = r ∧ s.Shows w :=
  refines_same s.keeps_shows (fun _ _ => trivial) (fun _ _ _ same => same)
    fun r => ⟨[⟨.readPlus, r⟩], path_call.2 rfl⟩

theorem refines_loadFinished :
    threads.Refines s.Shows (call ThreadCall.loadFinished) Main.finishedWorkers
      fun r r' w => r' = r ∧ s.Shows w :=
  refines_same s.keeps_shows (fun _ _ => trivial) (fun _ _ _ same => same.2)
    fun r => ⟨[⟨.finishedWorkers, r⟩], path_call.2 rfl⟩

theorem refines_loadStop : threads.Refines s.Shows (call ThreadCall.loadStop) (pure () : Main Unit)
    fun r _ w => r = s.stop ∧ s.Shows w := by
  refine refines_silent (c := .loadStop) (Q := fun r w => r = s.stop ∧ s.Shows w) s.keeps_shows
    (fun _ _ => trivial) (fun w r w' shows answer => ?_) fun r w w' h turn =>
      ⟨h.1, s.keeps_shows w w' h.2 turn⟩
  obtain ⟨rfl, rfl⟩ := answer
  exact ⟨shows.stop, shows⟩

theorem refines_raise :
    threads.Refines s.Shows (call (ThreadCall.storeStop true)) (pure () : Main Unit)
      fun _ _ w => ({ s with stop := true } : Scene).Shows w := by
  refine refines_silent (Q := fun _ w => ({ s with stop := true } : Scene).Shows w) s.keeps_shows
    (fun w _ up => absurd up (by decide)) (fun w _ w' shows answer => ?_) fun _ => Scene.keeps_shows _
  rw [answer]
  exact shows.raise

variable {s}

theorem refines_lower (closed : ∀ worker, s.stand worker = .closed) :
    threads.Refines s.Shows (call (ThreadCall.storeStop false)) (pure () : Main Unit)
      fun _ _ w => ({ s with stop := false } : Scene).Shows w := by
  have shut : ∀ {w : ThreadWorld}, s.Shows w → w.AllClosed := fun shows worker =>
    shows.handle_closed (by rw [closed worker]; trivial)
  refine refines_silent (Q := fun _ w => ({ s with stop := false } : Scene).Shows w) s.keeps_shows
    (fun w shows _ => shut shows) (fun w _ w' shows answer => ?_) fun _ => Scene.keeps_shows _
  rw [answer]
  refine ⟨rfl, shows.pump, shows.filler, fun worker => ?_⟩
  rw [closed worker, shut shows worker]
  exact trivial

theorem refines_initFinished (closed : ∀ worker, s.stand worker = .closed) :
    threads.Refines s.Shows (call ThreadCall.initFinished) (pure () : Main Unit)
      fun _ _ w => s.Shows w := by
  refine refines_silent (Q := fun _ w => s.Shows w) s.keeps_shows (fun w shows worker =>
    shows.handle_closed (by rw [closed worker]; trivial)) (fun w _ w' shows answer => ?_)
    fun _ => Scene.keeps_shows _
  rw [answer]
  exact ⟨shows.stop, shows.pump, shows.filler, shows.fits⟩

variable {worker : Nat} {ctx : NxmtWorkerContext}

theorem refines_initContext (closed : s.stand worker = .closed) :
    threads.Refines s.Shows (call (ThreadCall.initContext worker ctx)) (pure () : Main Unit)
      fun _ _ w => (s.setStand worker (.prepared ctx)).Shows w := by
  have shut : ∀ {w : ThreadWorld}, s.Shows w → w.handles worker = .closed := fun shows =>
    shows.handle_closed (by rw [closed]; trivial)
  refine refines_silent (Q := fun _ w => (s.setStand worker (.prepared ctx)).Shows w) s.keeps_shows
    (fun w shows => shut shows) (fun w _ w' shows answer => ?_) fun _ => Scene.keeps_shows _
  rw [answer]
  refine ⟨shows.stop, shows.pump, shows.filler, fun other => ?_⟩
  by_cases same : other = worker
  · subst same
    simp only [Scene.setStand, Function.update_self, shut shows]
    exact rfl
  · simpa [Scene.setStand, same] using shows.fits other

theorem refines_threadCreate {core : Int} (prepared : s.stand worker = .prepared ctx)
    (apart : s.pump ≠ some core) :
    threads.Refines s.Shows (call (ThreadCall.threadCreate worker core)) (Main.threadCreate worker)
      fun ok ok' w => ok' = ok ∧ (if ok then s.setStand worker (.created ctx) else s).Shows w := by
  refine .of_call s.keeps_shows (fun w shows => ⟨shows.handle_closed (by rw [prepared]; trivial),
    shows.pump ▸ apart⟩) (fun w ok w' shows answer => ?_) fun ok ok' w w' h turn =>
      ⟨h.1, Scene.keeps_shows _ w w' h.2 turn⟩
  refine ⟨[⟨.threadCreate worker, ok⟩], ok, path_call.2 rfl, rfl, ?_⟩
  cases ok with
  | false => exact answer ▸ shows
  | true =>
    rw [answer]
    have fits := shows.fits worker
    rw [prepared, shows.handle_closed (by rw [prepared]; trivial)] at fits
    exact shows.setStand fits

theorem refines_threadStart (created : s.stand worker = .created ctx) :
    threads.Refines s.Shows (call (ThreadCall.threadStart worker)) (Main.threadStart worker)
      fun ok ok' w => ok' = ok ∧ (if ok then s.setStand worker (.started ctx) else s).Shows w := by
  refine .of_call s.keeps_shows (fun w shows => (shows.handle_created created).1)
    (fun w ok w' shows answer => ?_) fun ok ok' w w' h turn =>
      ⟨h.1, Scene.keeps_shows _ w w' h.2 turn⟩
  refine ⟨[⟨.threadStart worker, ok⟩], ok, path_call.2 rfl, rfl, ?_⟩
  cases ok with
  | false => exact answer ▸ shows
  | true =>
    rw [answer]
    exact shows.setStand ⟨(shows.handle_created created).2, fun _ => quiet_nil⟩

theorem refines_threadWaitForExit (started : s.stand worker = .started ctx) :
    threads.Refines s.Shows (call (ThreadCall.threadWaitForExit worker)) (pure () : Main Unit)
      fun _ _ w => (s.setStand worker (.exited ctx)).Shows w := by
  refine refines_silent (Q := fun _ w => (s.setStand worker (.exited ctx)).Shows w) s.keeps_shows
    (fun w shows => shows.handle_started started) (fun w _ w' shows answer => ?_)
    fun _ => Scene.keeps_shows _
  obtain ⟨⟨x, exited⟩, rfl⟩ := answer
  have fits := shows.fits worker
  rw [started, exited] at fits
  have stay : w'.setHandle worker (.exited x) = w' := by
    rw [← exited]
    simp [ThreadWorld.setHandle]
  rw [← stay]
  exact shows.setStand fits

def Stand.afterClose : Stand → Stand
  | .exited ctx => .collected ctx
  | _ => .closed

theorem refines_threadClose
    (open_ : (∃ ctx, s.stand worker = .created ctx) ∨ ∃ ctx, s.stand worker = .exited ctx) :
    threads.Refines s.Shows (call (ThreadCall.threadClose worker)) (pure () : Main Unit)
      fun _ _ w => (s.setStand worker (s.stand worker).afterClose).Shows w := by
  refine refines_silent (Q := fun _ w => (s.setStand worker (s.stand worker).afterClose).Shows w)
    s.keeps_shows (fun w shows => ?_) (fun w _ w' shows answer => ?_) fun _ => Scene.keeps_shows _
  · rcases open_ with ⟨ctx, created⟩ | ⟨ctx, exited⟩
    · exact .inl (shows.handle_created created).1
    · obtain ⟨x, handle, -⟩ := shows.handle_exited exited
      exact .inr ⟨x, handle⟩
  · rw [answer]
    rcases open_ with ⟨ctx, created⟩ | ⟨ctx, exited⟩
    · rw [created]
      exact shows.setStand trivial
    · obtain ⟨x, -, rfl, result, quiet⟩ := shows.handle_exited exited
      rw [exited]
      exact shows.setStand ⟨⟨x.events, x.result, x.path, quiet⟩, result⟩

end
end NxMemTest
