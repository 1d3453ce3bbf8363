import NxMemTest.ThreadedRefine

/-! A pass with its threads, from making them to merging what they found, does what the
pass does that runs its workers in one call. The scenes say after each loop how far
every worker has come. -/

namespace NxMemTest
open Interaction Program Setting

/-! ### The loops over the workers -/

theorem refines_timerExpired (s : Scene) (durationMs testStarted : Word) :
    threads.Refines s.Shows (Threaded.timerExpired durationMs testStarted)
      (timerExpired durationMs testStarted) fun r r' w => r' = r ∧ s.Shows w := by
  refine .ite (fun _ => ?_) fun _ => .of_pure s.keeps_shows fun w shows => ⟨rfl, shows⟩
  refine .bind (refines_ticksMs s) fun now now' => .of_and fun same => ?_
  subst same
  exact .of_pure s.keeps_shows fun w shows => ⟨rfl, shows⟩

theorem refines_callEach {call : Nat → Threaded Bool} {call' : Nat → Main Bool} {S : Nat → Scene}
    {n : Nat} (each : ∀ k < n, threads.Refines (S k).Shows (call k) (call' k)
      fun ok ok' w => ok' = ok ∧ (S (if ok then k + 1 else k)).Shows w)
    (worker left : Nat) (total : worker + left = n) :
    threads.Refines (S worker).Shows (Threaded.callEach call worker left)
      (callEach call' worker left)
      fun r r' w => (r' = r ∧ r.2 ≤ n ∧ (r.1 = true → r.2 = n)) ∧ (S r.2).Shows w := by
  induction left generalizing worker with
  | zero =>
    exact .of_pure (S worker).keeps_shows fun w shows =>
      ⟨⟨rfl, le_of_eq total, fun _ => total⟩, shows⟩
  | succ left ih =>
    refine .bind (each worker (by omega)) fun ok ok' => .of_and fun same => ?_
    subst same
    cases ok' with
    | true => exact ih (worker + 1) (by omega)
    | false =>
      exact .of_pure (S worker).keeps_shows fun w shows =>
        ⟨⟨rfl, by dsimp only; omega, by simp⟩, shows⟩

theorem refines_forEach {call : Nat → Threaded Unit} {S : Nat → Scene} {n : Nat}
    (each : ∀ k < n, threads.Refines (S k).Shows (call k) (pure () : Main Unit)
      fun _ _ w => (S (k + 1)).Shows w) (worker left : Nat) (total : worker + left = n) :
    threads.Refines (S worker).Shows (Threaded.forEach call worker left) (pure () : Main Unit)
      fun _ _ w => (S n).Shows w := by
  induction left generalizing worker with
  | zero =>
    obtain rfl : worker = n := total
    exact .of_pure (S worker).keeps_shows fun w shows => shows
  | succ left ih => exact .silent (each worker (by omega)) fun _ => ih (worker + 1) (by omega)

theorem refines_waitWorkers (s : Scene) (down : s.stop = false) (durationMs testStarted : Word)
    (started fuel : Nat) :
    threads.Refines s.Shows (Threaded.waitWorkers durationMs testStarted started fuel)
      (waitWorkers durationMs testStarted started fuel) fun r r' w => r' = r ∧
        ∀ ended, r = some ended → ({ s with stop := decide (ended ≠ .finished) } : Scene).Shows w := by
  -- the three ways out that raise the flag
  have raised : ∀ ended : WaitEnd, ended ≠ .finished → threads.Refines s.Shows
      (do call (ThreadCall.storeStop true); pure (some ended)) (pure (some ended) : Main _)
      fun r r' w => r' = r ∧ ∀ ended, r = some ended →
        ({ s with stop := decide (ended ≠ .finished) } : Scene).Shows w := by
    intro ended early
    refine .silent (refines_raise s) fun _ => .of_pure (Scene.keeps_shows _) fun w shows => ⟨rfl, ?_⟩
    rintro _ ⟨⟩
    rw [decide_eq_true early]
    exact shows
  induction fuel with
  | zero =>
    exact .of_pure s.keeps_shows fun w shows => ⟨rfl, fun ended none => by cases none⟩
  | succ fuel ih =>
    refine .bind (refines_loadFinished s) fun finished finished' => .of_and fun same => ?_
    subst same
    refine .ite (fun _ => ?_) fun _ => ?_
    · refine .bind (refines_appletMainLoop s) fun running running' => .of_and fun same => ?_
      subst same
      refine .ite (fun _ => raised _ (by decide)) fun _ => ?_
      refine .bind (refines_readPlus s) fun plus plus' => .of_and fun same => ?_
      subst same
      refine .ite (fun _ => raised _ (by decide)) fun _ => ?_
      refine .bind (refines_timerExpired s _ _) fun expired expired' => .of_and fun same => ?_
      subst same
      exact .ite (fun _ => raised _ (by decide)) fun _ => ih
    · refine .of_pure s.keeps_shows fun w shows => ⟨rfl, ?_⟩
      rintro _ ⟨⟩
      have flag : decide (WaitEnd.finished ≠ .finished) = s.stop := down.symm
      rw [flag]
      exact shows

/-! ### The scenes of a pass -/

namespace Scene
variable (s : Scene) (ctx : Nat → NxmtWorkerContext)

def idle : Scene := { s with stand := fun _ => .closed }

/-- The workers below `k` have been created. -/
def making (k : Nat) : Scene :=
  { s with stand := fun i => if i < k then .created (ctx i) else .closed }

def starting (n k : Nat) : Scene :=
  { s with stand := fun i =>
      if i < k then .started (ctx i) else if i < n then .created (ctx i) else .closed }

def joining (n started k : Nat) : Scene :=
  { s with stand := fun i =>
      if i < k then .exited (ctx i) else if i < started then .started (ctx i)
      else if i < n then .created (ctx i) else .closed }

def closing (n started k : Nat) : Scene :=
  { s with stand := fun i =>
      if i < k then (if i < started then .collected (ctx i) else .closed)
      else if i < started then .exited (ctx i) else if i < n then .created (ctx i) else .closed }

theorem making_zero : s.making ctx 0 = s.idle := by simp [making, idle]

variable {s ctx}

theorem starting_zero (n : Nat) : s.starting ctx n 0 = s.making ctx n := by
  simp [making, starting]

theorem joining_zero (n started : Nat) : s.joining ctx n started 0 = s.starting ctx n started := by
  simp [joining, starting]

theorem closing_zero (n started : Nat) :
    s.closing ctx n started 0 = s.joining ctx n started started := by
  simp only [joining, closing, Nat.not_lt_zero, if_false]
  congr 1
  funext i
  by_cases early : i < started <;> simp [early]

theorem closing_making (n : Nat) : s.closing ctx n 0 0 = s.making ctx n := by
  rw [closing_zero, joining_zero, starting_zero]

theorem closing_shut (s : Scene) (ctx : Nat → NxmtWorkerContext) (n started : Nat)
    (few : started ≤ n) (worker : Nat) : ((s.closing ctx n started n).stand worker).Shut := by
  simp only [closing]
  by_cases inside : worker < n
  · rw [if_pos inside]
    split <;> trivial
  · rw [if_neg inside, if_neg (by omega), if_neg inside]
    trivial

theorem closing_still (s : Scene) (ctx : Nat → NxmtWorkerContext) (n started : Nat)
    (few : started ≤ n) : (s.closing ctx n started n).Still := by
  intro worker ctx' running
  have closed := closing_shut s ctx n started few worker
  rw [running] at closed
  exact closed

theorem Shows.idle {s' : Scene} {w : ThreadWorld} (shows : s'.Shows w)
    (shut : ∀ worker, (s'.stand worker).Shut) : s'.idle.Shows w :=
  shows.forget rfl rfl rfl fun worker => .inr ⟨shut worker, rfl⟩

end Scene

section
variable {s : Scene} {ctx : Nat → NxmtWorkerContext} {n started k : Nat}

theorem refines_create {c : MainConfig} {cpuMap : List Int} {passIndex : Word}
    (apart : s.pump ≠ some (cpuOf cpuMap k)) :
    let ctx := workerContext c c.workers passIndex true
    threads.Refines (s.making ctx k).Shows (Threaded.create c cpuMap passIndex k)
      (Main.threadCreate k)
      fun ok ok' w => ok' = ok ∧ (s.making ctx (if ok then k + 1 else k)).Shows w := by
  intro ctx
  have closed : (s.making ctx k).stand k = .closed := by simp [Scene.making]
  have prepared : ((s.making ctx k).setStand k (.prepared (ctx k))).stand k = .prepared (ctx k) := by
    simp [Scene.setStand]
  refine .silent (refines_initContext closed) fun _ => ?_
  refine (refines_threadCreate prepared apart).conseq (fun w shows => shows) ?_
  rintro ok ok' w ⟨same, shows⟩
  refine ⟨same, ?_⟩
  cases ok with
  | true =>
    have twice : ((s.making ctx k).setStand k (.prepared (ctx k))).setStand k (.created (ctx k)) =
        (s.making ctx k).setStand k ((s.making ctx (k + 1)).stand k) := by
      simp [Scene.setStand, Scene.making]
    rw [if_pos rfl, twice] at shows
    rw [if_pos rfl]
    refine shows.change rfl rfl rfl fun other ne => ?_
    have : other < k + 1 ↔ other < k := by omega
    simp only [Scene.making, this]
  | false =>
    refine shows.forget rfl rfl rfl fun other => ?_
    by_cases here : other = k
    · subst here
      exact .inr ⟨by simp [Scene.setStand, Stand.Shut], by simp [Scene.making]⟩
    · exact .inl (by simp [Scene.setStand, here])

theorem refines_start (inside : k < n) :
    threads.Refines (s.starting ctx n k).Shows (Threaded.start k) (Main.threadStart k)
      fun ok ok' w => ok' = ok ∧ (s.starting ctx n (if ok then k + 1 else k)).Shows w := by
  have created : (s.starting ctx n k).stand k = .created (ctx k) := by
    simp [Scene.starting, inside]
  refine (refines_threadStart created).conseq (fun w shows => shows) ?_
  rintro ok ok' w ⟨same, shows⟩
  refine ⟨same, ?_⟩
  cases ok with
  | true =>
    have started : (s.starting ctx n (k + 1)).stand k = .started (ctx k) := by
      simp [Scene.starting]
    rw [if_pos rfl, ← started] at shows
    rw [if_pos rfl]
    refine shows.change rfl rfl rfl fun other ne => ?_
    have : other < k + 1 ↔ other < k := by omega
    simp only [Scene.starting, this]
  | false => exact shows

theorem refines_join (inside : k < started) :
    threads.Refines (s.joining ctx n started k).Shows (Threaded.join k) (pure () : Main Unit)
      fun _ _ w => (s.joining ctx n started (k + 1)).Shows w := by
  have before : (s.joining ctx n started k).stand k = .started (ctx k) := by
    simp [Scene.joining, inside]
  have after : (s.joining ctx n started (k + 1)).stand k = .exited (ctx k) := by
    simp [Scene.joining]
  refine (refines_threadWaitForExit before).conseq (fun w shows => shows) fun _ _ w shows => ?_
  rw [← after] at shows
  refine shows.change rfl rfl rfl fun other ne => ?_
  have : other < k + 1 ↔ other < k := by omega
  simp only [Scene.joining, this]

theorem refines_close (inside : k < n) :
    threads.Refines (s.closing ctx n started k).Shows (Threaded.close k) (pure () : Main Unit)
      fun _ _ w => (s.closing ctx n started (k + 1)).Shows w := by
  have stand : (s.closing ctx n started k).stand k =
      if k < started then .exited (ctx k) else .created (ctx k) := by
    simp [Scene.closing, inside]
  have after : ((s.closing ctx n started k).stand k).afterClose =
      (s.closing ctx n started (k + 1)).stand k := by
    rw [stand]
    simp only [Scene.closing, Nat.lt_succ_self, if_true]
    split <;> rfl
  refine (refines_threadClose (s := s.closing ctx n started k) ?_).conseq (fun w shows => shows)
    fun _ _ w shows => ?_
  · rw [stand]
    split
    · exact .inr ⟨_, rfl⟩
    · exact .inl ⟨_, rfl⟩
  · rw [after] at shows
    refine shows.change rfl rfl rfl fun other ne => ?_
    have : other < k + 1 ↔ other < k := by omega
    simp only [Scene.closing, this]

variable (s ctx n started) in
theorem refines_closeAll :
    threads.Refines (s.closing ctx n started 0).Shows (Threaded.forEach Threaded.close 0 n)
      (pure () : Main Unit) fun _ _ w => (s.closing ctx n started n).Shows w :=
  refines_forEach (S := s.closing ctx n started) (fun _ inside => refines_close inside) 0 n
    (Nat.zero_add n)

end

/-! ### Joining and merging -/

namespace Threaded.Locals

def state (l : Threaded.Locals) (stop : Bool) : RunState :=
  ⟨l.totals, l.passesCompleted, l.passIndex, stop, l.userAborted, l.threadFallback⟩

end Threaded.Locals

section
variable {s : Scene} {ctx : Nat → NxmtWorkerContext} {n started : Nat}

theorem Scene.Shows.runs {w : ThreadWorld} (few : started ≤ n)
    (shows : (s.closing ctx n started n).Shows w) :
    ∃ runs : (worker : Fin started) → WorkerRun (ctx worker) s.stop,
      ∀ worker : Fin started, w.contexts worker = (runs worker).result := by
  have each : ∀ worker : Fin started, ∃ run : WorkerRun (ctx worker) s.stop,
      w.contexts worker = run.result := by
    intro worker
    have early := worker.isLt
    have stand : (s.closing ctx n started n).stand worker = .collected (ctx worker) := by
      simp only [Scene.closing]
      rw [if_pos (by omega), if_pos early]
    have fits := shows.fits worker
    rw [shows.handle_closed (by rw [stand]; trivial), stand] at fits
    exact fits
  choose runs result using each
  exact ⟨runs, result⟩

theorem refines_mergeEach (few : started ≤ n) (f : Nat → NxmtWorkerContext) (worker left : Nat)
    (totals : Totals) :
    threads.Refines (fun w => (s.closing ctx n started n).Shows w ∧ w.contexts = f)
      (Threaded.mergeEach worker left totals) (pure () : Main Unit)
      fun r _ w => r = (List.range' worker left).foldl
          (fun totals worker => mergeWorkerContext (f worker) totals) totals ∧
        (s.closing ctx n started n).Shows w ∧ w.contexts = f := by
  have shut := Scene.closing_shut s ctx n started few
  have still := Scene.closing_still s ctx n started few
  have keeps := still.keeps (fun w => w.contexts = f)
  induction left generalizing worker totals with
  | zero => exact .of_pure keeps fun w h => ⟨rfl, h⟩
  | succ left ih =>
    refine .silent (refines_silent (c := .loadContext worker)
      (Q := fun r w => r = f worker ∧ (s.closing ctx n started n).Shows w ∧ w.contexts = f)
      keeps (fun w h t running => ?_) (fun w r w' h answer => ?_)
      fun r w w' h turn => absurd turn (still.no_turn h.2.1)) fun r => .of_and fun same => ?_
    · rw [h.1.handle_closed (shut worker)] at running
      cases running
    · obtain ⟨rfl, rfl⟩ := answer
      exact ⟨congrFun h.2 worker, h⟩
    · subst same
      rw [List.range'_succ]
      exact ih (worker + 1) _

theorem refines_finish (few : started ≤ n) (l : Threaded.Locals) :
    threads.Refines (s.starting ctx n started).Shows (Threaded.finish started n l)
      (runAndMerge started ctx (l.state s.stop))
      fun l' st' w => st' = l'.state s.stop ∧ s.idle.Shows w := by
  have joins := refines_forEach (S := s.joining ctx n started)
    (n := started) (fun k inside => refines_join inside) 0 started
    (Nat.zero_add started)
  rw [Scene.joining_zero] at joins
  refine .silent joins fun _ => ?_
  have closes := refines_closeAll s ctx n started
  rw [Scene.closing_zero] at closes
  refine .silent closes fun _ => ?_
  -- the contexts are read off, and with them what the other run is to be answered
  refine Refines.pre (P := fun w => ∃ f, (∃ runs : (worker : Fin started) →
      WorkerRun (ctx worker) s.stop, ∀ worker : Fin started, f worker = (runs worker).result) ∧
        (s.closing ctx n started n).Shows w ∧ w.contexts = f) ?_ fun w shows =>
      ⟨w.contexts, shows.runs few, shows, rfl⟩
  refine .of_exists fun f => .of_and fun answered => ?_
  obtain ⟨runs, results⟩ := answered
  refine .choose (r := runs) (.silent (refines_mergeEach few f 0 started l.totals) fun totals =>
    .of_and fun merged => ?_)
  have same : totals = (List.finRange started).foldl
      (fun totals worker => mergeWorkerContext (runs worker).result totals) l.totals := by
    rw [merged, ← List.range_eq_range', ← List.map_coe_finRange_eq_range, List.foldl_map]
    simp only [results]
  exact .of_pure ((Scene.closing_still s ctx n started few).keeps _) fun w h =>
    ⟨by rw [same]; rfl, h.1.idle (Scene.closing_shut s ctx n started few)⟩

end

end NxMemTest
