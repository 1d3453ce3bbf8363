import NxMemTest.ThreadedRun
import NxMemTest.PassTrace
import NxMemTest.Interaction.Interference
import Mathlib.Logic.Function.Basic

/-! What the main thread and its workers share, and everything that can happen to it:
the workers' own turns, in any order and on any memory, and the answers of the main
thread's calls. A `Scene` says how far each thread handle has come. -/

namespace NxMemTest
open Interaction Program

/-- A worker thread on its way: what it has asked, and what it has still to do. -/
structure Thread where
  context : NxmtWorkerContext
  events : List (Event Call.Answer)
  left : Runner NxmtWorkerContext
  runs : ∀ t a, Path left t a → Path (nxmtWorkerEntry context) (events ++ t) a

structure ExitedThread where
  context : NxmtWorkerContext
  events : List (Event Call.Answer)
  result : NxmtWorkerContext
  path : Path (nxmtWorkerEntry context) events result

namespace Thread

def start (context : NxmtWorkerContext) : Thread :=
  ⟨context, [], nxmtWorkerEntry context, fun _ _ path => path⟩

def turn (t : Thread) {c : Call} {next : c.Answer → Runner NxmtWorkerContext}
    (left : t.left = .ask c next) (r : c.Answer) : Thread where
  context := t.context
  events := t.events ++ [⟨c, r⟩]
  left := next r
  runs u a path := by
    rw [List.append_assoc]
    exact t.runs _ a (left ▸ .ask path)

def exit (t : Thread) {a : NxmtWorkerContext} (left : t.left = .done a) : ExitedThread where
  context := t.context
  events := t.events
  result := a
  path := by
    have path := t.runs [] a (left ▸ .done a)
    rwa [List.append_nil] at path

end Thread

inductive Handle where
  | closed
  | created
  | running (t : Thread)
  | exited (x : ExitedThread)

/-- `stop` is `g_stop_requested`, `finished` is `g_finished_workers`, `contexts` is
`g_worker_contexts`; the cores are those of the helpers that have been started and not
stopped. -/
structure ThreadWorld where
  stop : Bool
  finished : BitVec 32
  contexts : Nat → NxmtWorkerContext
  handles : Nat → Handle
  pumpCore : Option Int
  fillerCore : Option Int

/-- A poll reads the stop flag; memory may answer as it likes. -/
def Heard (stop : Bool) : Event Call.Answer → Prop
  | ⟨.stopRequested, r⟩ => r = stop
  | _ => True

namespace ThreadWorld

def setHandle (w : ThreadWorld) (worker : Nat) (handle : Handle) : ThreadWorld :=
  { w with handles := Function.update w.handles worker handle }

/-- A worker takes a turn: its next question is answered, or it returns, with its context
written and itself counted. -/
inductive Turn : ThreadWorld → ThreadWorld → Prop
  | ask {w : ThreadWorld} {worker : Nat} {t : Thread} {c : Call}
      {next : c.Answer → Runner NxmtWorkerContext} (running : w.handles worker = .running t)
      (left : t.left = .ask c next) (r : c.Answer) (heard : Heard w.stop ⟨c, r⟩) :
      Turn w (w.setHandle worker (.running (t.turn left r)))
  | exit {w : ThreadWorld} {worker : Nat} {t : Thread} {a : NxmtWorkerContext}
      (running : w.handles worker = .running t) (left : t.left = .done a) :
      Turn w { w.setHandle worker (.exited (t.exit left)) with
        finished := w.finished + 1
        contexts := Function.update w.contexts worker a }

/-- The answers of a call, each with the world after it. A wait for a thread that still
runs has none yet. -/
def answer : (c : ThreadCall) → ThreadWorld → c.Answer → ThreadWorld → Prop
  | .gpuPumpStart _ _ core, w, ok, w' => w' = if ok then { w with pumpCore := some core } else w
  | .cpuFillerStart core, w, ok, w' => w' = if ok then { w with fillerCore := some core } else w
  | .cpuFillerStop, w, _, w' => w' = { w with fillerCore := none }
  | .gpuPumpStop, w, _, w' => w' = { w with pumpCore := none }
  | .storeStop value, w, _, w' => w' = { w with stop := value }
  | .loadStop, w, r, w' => r = w.stop ∧ w' = w
  | .initFinished, w, _, w' => w' = { w with finished := 0 }
  | .loadFinished, w, r, w' => r = w.finished ∧ w' = w
  | .initContext worker ctx, w, _, w' =>
    w' = { w with contexts := Function.update w.contexts worker ctx }
  | .loadContext worker, w, r, w' => r = w.contexts worker ∧ w' = w
  | .threadCreate worker _, w, ok, w' => w' = if ok then w.setHandle worker .created else w
  | .threadStart worker, w, ok, w' =>
    w' = if ok then w.setHandle worker (.running (Thread.start (w.contexts worker))) else w
  | .threadWaitForExit worker, w, _, w' => (∃ x, w.handles worker = .exited x) ∧ w' = w
  | .threadClose worker, w, _, w' => w' = w.setHandle worker .closed
  | .runner c, w, r, w' => Heard w.stop ⟨c, r⟩ ∧ w' = w
  | .gpuPumpErrBatches, w, _, w' | .ticksMs, w, _, w' | .appletMainLoop, w, _, w'
  | .readPlus, w, _, w' => w' = w

def AllClosed (w : ThreadWorld) : Prop := ∀ worker, w.handles worker = .closed

/-- When a call is made as it should be. Handles are used in order, contexts only while
their worker does not run, the flag is lowered only when no worker is there to see it,
helpers are waited for only once it is up, and no worker shares the pump's core. -/
def Legal : ThreadCall → ThreadWorld → Prop
  | .gpuPumpStart .., w => w.pumpCore = none ∧ w.stop = false ∧ w.AllClosed
  | .cpuFillerStart core, w => w.fillerCore = none ∧ w.pumpCore = some core ∧ w.stop = false
  | .cpuFillerStop, w => w.fillerCore ≠ none ∧ w.stop = true
  | .gpuPumpStop, w => w.pumpCore ≠ none ∧ w.stop = true
  | .gpuPumpErrBatches, w => w.pumpCore = none
  | .storeStop value, w => value = false → w.AllClosed
  | .initFinished, w => w.AllClosed
  | .initContext worker _, w => w.handles worker = .closed
  | .loadContext worker, w => ∀ t, w.handles worker ≠ .running t
  | .threadCreate worker core, w => w.handles worker = .closed ∧ w.pumpCore ≠ some core
  | .threadStart worker, w => w.handles worker = .created
  | .threadWaitForExit worker, w =>
    (∃ t, w.handles worker = .running t) ∨ ∃ x, w.handles worker = .exited x
  | .threadClose worker, w => w.handles worker = .created ∨ ∃ x, w.handles worker = .exited x
  | .runner _, w => w.AllClosed
  | .ticksMs, _ | .appletMainLoop, _ | .readPlus, _ | .loadStop, _ | .loadFinished, _ => True

end ThreadWorld

def threads : Setting ThreadWorld ThreadCall ThreadCall.Answer where
  turn := ThreadWorld.Turn
  answer := ThreadWorld.answer
  legal := ThreadWorld.Legal

/-! ### Scenes -/

/-- How far a worker's handle has come, and on which context. A prepared one has its
context written, of a collected one it holds the result. -/
inductive Stand where
  | closed
  | prepared (ctx : NxmtWorkerContext)
  | created (ctx : NxmtWorkerContext)
  | started (ctx : NxmtWorkerContext)
  | exited (ctx : NxmtWorkerContext)
  | collected (ctx : NxmtWorkerContext)

/-- The handle and the context of a worker are as `Stand` says; if the flag has not been
up, nothing has stopped the worker. -/
def Stand.Fits (stop : Bool) (context : NxmtWorkerContext) : Stand → Handle → Prop
  | .closed, .closed => True
  | .prepared ctx, .closed => context = ctx
  | .created ctx, .created => context = ctx
  | .started ctx, .running t => t.context = ctx ∧ (stop = false → Quiet t.events)
  | .started ctx, .exited x | .exited ctx, .exited x =>
    x.context = ctx ∧ context = x.result ∧ (stop = false → Quiet x.events)
  | .collected ctx, .closed => ∃ run : WorkerRun ctx stop, context = run.result
  | _, _ => False

def Stand.Shut : Stand → Prop
  | .closed | .prepared _ | .collected _ => True
  | .created _ | .started _ | .exited _ => False

structure Scene where
  stand : Nat → Stand
  stop : Bool
  pump : Option Int
  filler : Option Int

namespace Scene

structure Shows (s : Scene) (w : ThreadWorld) : Prop where
  stop : w.stop = s.stop
  pump : w.pumpCore = s.pump
  filler : w.fillerCore = s.filler
  fits : ∀ worker, (s.stand worker).Fits s.stop (w.contexts worker) (w.handles worker)

def setStand (s : Scene) (worker : Nat) (stand : Stand) : Scene :=
  { s with stand := Function.update s.stand worker stand }

def Still (s : Scene) : Prop := ∀ worker ctx, s.stand worker ≠ .started ctx

variable {s : Scene} {w w' : ThreadWorld}

theorem Shows.setStand {worker : Nat} {stand : Stand} {handle : Handle} (shows : s.Shows w)
    (fits : stand.Fits s.stop (w.contexts worker) handle) :
    (s.setStand worker stand).Shows (w.setHandle worker handle) := by
  refine ⟨shows.stop, shows.pump, shows.filler, fun other => ?_⟩
  by_cases same : other = worker
  · subst same
    simpa [Scene.setStand, ThreadWorld.setHandle] using fits
  · simpa [Scene.setStand, ThreadWorld.setHandle, same] using shows.fits other

theorem Shows.running {worker : Nat} {t : Thread} (shows : s.Shows w)
    (running : w.handles worker = .running t) :
    s.stand worker = .started t.context ∧ (s.stop = false → Quiet t.events) := by
  have fits := shows.fits worker
  rw [running] at fits
  cases stand : s.stand worker with
  | started ctx =>
    rw [stand] at fits
    obtain ⟨rfl, quiet⟩ := fits
    exact ⟨rfl, quiet⟩
  | _ =>
    rw [stand] at fits
    exact fits.elim

/-- The workers' turns change nothing that a scene says. -/
theorem keeps_shows (s : Scene) : threads.Keeps s.Shows := by
  intro w w' shows turn
  cases turn with
  | @ask worker t c next running left r heard =>
    obtain ⟨stand, quiet⟩ := shows.running running
    have stay : s.setStand worker (s.stand worker) = s := by
      simp [Scene.setStand]
    rw [← stay]
    refine shows.setStand ?_
    rw [stand]
    refine ⟨rfl, fun down => (quiet_append _ _).2 ⟨quiet down, ?_⟩⟩
    rw [quiet_cons]
    refine ⟨?_, quiet_nil⟩
    cases c with
    | stopRequested =>
      rw [shows.stop, down] at heard
      exact heard
    | _ => rfl
  | @exit worker t a running left =>
    obtain ⟨stand, quiet⟩ := shows.running running
    refine ⟨shows.stop, shows.pump, shows.filler, fun other => ?_⟩
    by_cases same : other = worker
    · subst same
      simp only [ThreadWorld.setHandle, Function.update_self, stand]
      exact ⟨rfl, rfl, quiet⟩
    · simpa [ThreadWorld.setHandle, same] using shows.fits other

theorem Still.no_turn (still : s.Still) (shows : s.Shows w) : ¬ threads.turn w w' := by
  intro turn
  cases turn with
  | ask running => exact still _ _ (shows.running running).1
  | exit running => exact still _ _ (shows.running running).1

theorem Still.keeps (still : s.Still) (P : ThreadWorld → Prop) :
    threads.Keeps fun w => s.Shows w ∧ P w :=
  fun _ _ h turn => absurd turn (still.no_turn h.1)

end Scene
end NxMemTest
