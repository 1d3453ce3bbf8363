import NxMemTest.Interaction.Program
import Mathlib.Logic.Function.Basic

/-! Programs of several workers interleaved question by question over one
shared state. If every question a worker may ask stays inside its own region
of the state, no schedule can be told from running each worker alone. -/

namespace NxMemTest.Interaction

structure Pool (ι E : Type) (R : E → Type) (α S : Type) where
  progs : ι → Program E R α
  state : S

namespace Pool
variable {ι E : Type} {R : E → Type} {α S : Type} [DecidableEq ι]

def step (h : ι → (e : E) → S → R e × S) (c : Pool ι E R α S) (i : ι) : Pool ι E R α S :=
  match c.progs i with
  | .done _ => c
  | .ask e next => ⟨Function.update c.progs i (next (h i e c.state).1), (h i e c.state).2⟩

def runSchedule (h : ι → (e : E) → S → R e × S) (schedule : List ι)
    (c : Pool ι E R α S) : Pool ι E R α S :=
  schedule.foldl (step h) c

def asked (h : ι → (e : E) → S → R e × S) : List ι → Pool ι E R α S → List (ι × Event R)
  | [], _ => []
  | i :: rest, c =>
    match c.progs i with
    | .done _ => asked h rest c
    | .ask e _ => (i, ⟨e, (h i e c.state).1⟩) :: asked h rest (step h c i)

def Finished (c : Pool ι E R α S) : Prop := ∀ i, ∃ a, c.progs i = .done a

def runSerial (h : ι → (e : E) → S → R e × S) (progs : ι → Program E R α) :
    List ι → S → List (ι × α) × S
  | [], s => ([], s)
  | i :: rest, s =>
    let out := (progs i).exec (h i) s
    let more := runSerial h progs rest out.2
    ((i, out.1) :: more.1, more.2)

variable (h : ι → (e : E) → S → R e × S)

theorem runSchedule_cons (i : ι) (rest : List ι) (c : Pool ι E R α S) :
    runSchedule h (i :: rest) c = runSchedule h rest (step h c i) := rfl

theorem runSchedule_inv (A : ι → E → Prop) (I : S → Prop)
    (keep : ∀ i e s, A i e → I s → I (h i e s).2) (schedule : List ι) (c : Pool ι E R α S)
    (uses : ∀ i, (c.progs i).Uses (A i)) (hI : I c.state) :
    (∀ i, ((runSchedule h schedule c).progs i).Uses (A i)) ∧
      I (runSchedule h schedule c).state ∧
      ∀ q ∈ asked h schedule c, A q.1 q.2.1 := by
  induction schedule generalizing c with
  | nil => exact ⟨uses, hI, by simp [asked]⟩
  | cons i rest ih =>
    rw [runSchedule_cons]
    cases hi : c.progs i with
    | done a =>
      have stay : step h c i = c := by simp only [step, hi]
      rw [stay]
      simpa only [asked, hi] using ih c uses hI
    | ask e next =>
      have ui := uses i
      rw [hi] at ui
      have uses' : ∀ j, ((step h c i).progs j).Uses (A j) := by
        intro j
        simp only [step, hi]
        by_cases hj : j = i
        · subst hj
          simpa using ui.2 _
        · simpa [Function.update_of_ne hj] using uses j
      have hI' : I (step h c i).state := by
        simp only [step, hi]
        exact keep i e _ ui.1 hI
      obtain ⟨hu, hs, hq⟩ := ih (step h c i) uses' hI'
      refine ⟨hu, hs, ?_⟩
      simp only [asked, hi, List.mem_cons, forall_eq_or_imp]
      exact ⟨ui.1, hq⟩

omit [DecidableEq ι] in
theorem runSerial_inv (A : ι → E → Prop) (I : S → Prop)
    (keep : ∀ i e s, A i e → I s → I (h i e s).2) (progs : ι → Program E R α)
    (uses : ∀ i, (progs i).Uses (A i)) (order : List ι) (s : S) (hI : I s) :
    I (runSerial h progs order s).2 := by
  induction order generalizing s with
  | nil => exact hI
  | cons i rest ih => exact ih _ ((uses i).exec_inv (keep i) hI)

section Independence

/-! `Same i s s'` says that worker `i` cannot tell `s` from `s'`. A permitted
question of `i` respects it, and one of another worker does not disturb it. -/

variable (A : ι → E → Prop) (Same : ι → S → S → Prop)
  (refl : ∀ i s, Same i s s) (trans : ∀ i s t u, Same i s t → Same i t u → Same i s u)
  (owned : ∀ i e s s', A i e → Same i s s' →
    (h i e s).1 = (h i e s').1 ∧ Same i (h i e s).2 (h i e s').2)
  (frame : ∀ i j e s, i ≠ j → A j e → Same i s (h j e s).2)
include owned

omit [DecidableEq ι] in
theorem exec_same (i : ι) (p : Program E R α) (s s' : S) (uses : p.Uses (A i))
    (hs : Same i s s') :
    (p.exec (h i) s).1 = (p.exec (h i) s').1 ∧ Same i (p.exec (h i) s).2 (p.exec (h i) s').2 := by
  induction p generalizing s s' with
  | done a => exact ⟨rfl, hs⟩
  | ask e next ih =>
    obtain ⟨answer, hs'⟩ := owned i e s s' uses.1 hs
    simp only [Program.exec, ← answer]
    exact ih _ _ _ (uses.2 _) hs'

include refl frame

omit [DecidableEq ι] owned in
theorem exec_frame (i j : ι) (ne : i ≠ j) (p : Program E R α) (s : S)
    (uses : p.Uses (A j)) (trans : ∀ i s t u, Same i s t → Same i t u → Same i s u) :
    Same i s (p.exec (h j) s).2 := by
  induction p generalizing s with
  | done a => exact refl i s
  | ask e next ih => exact trans i _ _ _ (frame i j e s ne uses.1) (ih _ _ (uses.2 _))

include trans

theorem runSchedule_exec (schedule : List ι) (c : Pool ι E R α S)
    (uses : ∀ i, (c.progs i).Uses (A i)) (i : ι) :
    ((c.progs i).exec (h i) c.state).1 =
        (((runSchedule h schedule c).progs i).exec (h i) (runSchedule h schedule c).state).1 ∧
      Same i ((c.progs i).exec (h i) c.state).2
        (((runSchedule h schedule c).progs i).exec (h i) (runSchedule h schedule c).state).2 := by
  induction schedule generalizing c with
  | nil => exact ⟨rfl, refl i _⟩
  | cons j rest ih =>
    rw [runSchedule_cons]
    cases hj : c.progs j with
    | done a =>
      have stay : step h c j = c := by simp only [step, hj]
      rw [stay]
      exact ih c uses
    | ask e next =>
      have uj := uses j
      rw [hj] at uj
      have uses' : ∀ k, ((step h c j).progs k).Uses (A k) :=
        (runSchedule_inv h A (fun _ => True) (fun _ _ _ _ _ => trivial) [j] c uses trivial).1
      obtain ⟨value, same⟩ := ih (step h c j) uses'
      by_cases hij : i = j
      · -- the worker's own turn is the first step of its solo run
        subst hij
        have turn : ((step h c i).progs i).exec (h i) (step h c i).state =
            (c.progs i).exec (h i) c.state := by
          simp [step, hj, Program.exec]
        rw [turn] at value same
        exact ⟨value, same⟩
      · have kept : (step h c j).progs i = c.progs i := by
          simp [step, hj, Function.update_of_ne hij]
        have moved : Same i c.state (step h c j).state := by
          simp only [step, hj]
          exact frame i j e _ hij uj.1
        obtain ⟨value', same'⟩ := exec_same h A Same owned i (c.progs i) _ _ (uses i) moved
        rw [kept] at value same
        exact ⟨value'.trans value, trans i _ _ _ same' same⟩

/-- Once all have finished, every worker holds the result of its solo run and
its region is as that run left it. -/
theorem finished_solo (schedule : List ι) (c : Pool ι E R α S)
    (uses : ∀ i, (c.progs i).Uses (A i)) (fin : (runSchedule h schedule c).Finished) (i : ι) :
    (runSchedule h schedule c).progs i = .done ((c.progs i).exec (h i) c.state).1 ∧
      Same i ((c.progs i).exec (h i) c.state).2 (runSchedule h schedule c).state := by
  obtain ⟨value, same⟩ := runSchedule_exec h A Same refl trans owned frame schedule c uses i
  obtain ⟨a, ha⟩ := fin i
  rw [ha] at value same ⊢
  exact ⟨by rw [value]; rfl, same⟩

omit [DecidableEq ι] in
theorem runSerial_solo (progs : ι → Program E R α) (uses : ∀ i, (progs i).Uses (A i))
    (order : List ι) (s : S) (nodup : order.Nodup) :
    (runSerial h progs order s).1 = order.map (fun i => (i, ((progs i).exec (h i) s).1)) ∧
      ∀ i, (i ∉ order → Same i s (runSerial h progs order s).2) ∧
        (i ∈ order → Same i ((progs i).exec (h i) s).2 (runSerial h progs order s).2) := by
  induction order generalizing s with
  | nil => exact ⟨rfl, fun i => ⟨fun _ => refl i s, fun hi => absurd hi List.not_mem_nil⟩⟩
  | cons j rest ih =>
    obtain ⟨hj, nodup'⟩ := List.nodup_cons.1 nodup
    obtain ⟨results, regions⟩ := ih ((progs j).exec (h j) s).2 nodup'
    have moved : ∀ i, i ≠ j → Same i s ((progs j).exec (h j) s).2 := fun i ne =>
      exec_frame h A Same refl frame i j ne _ s (uses j) trans
    have solo : ∀ i, i ≠ j → _ := fun i ne =>
      exec_same h A Same owned i (progs i) _ _ (uses i) (moved i ne)
    refine ⟨?_, fun i => ?_⟩
    · rw [runSerial, List.map_cons]
      dsimp only
      rw [results]
      refine congrArg _ (List.map_congr_left fun i hi => ?_)
      have ne : i ≠ j := fun same => hj (same ▸ hi)
      rw [(solo i ne).1]
    · by_cases ne : i = j
      · subst ne
        exact ⟨fun hi => absurd List.mem_cons_self hi, fun _ => (regions i).1 hj⟩
      · refine ⟨fun hi => ?_, fun hi => ?_⟩
        · exact trans i _ _ _ (moved i ne) ((regions i).1 fun hr => hi (List.mem_cons_of_mem _ hr))
        · exact trans i _ _ _ (solo i ne).2
            ((regions i).2 ((List.mem_cons.1 hi).resolve_left ne))

end Independence

/-! ### Flags that are only ever raised -/

section Flag

/-! The answers do not depend on the shared state, and a question only ever adds to
what `P` says of it. -/

variable (ans : ι → (e : E) → R e) (raises : ι → E → Prop) (P : S → Prop)

def Raised (i : ι) : Program E R α → Prop
  | .done _ => False
  | .ask e next => raises i e ∨ Raised i (next (ans i e))

variable (answer : ∀ i e s, (h i e s).1 = ans i e) (flag : ∀ i e s, P (h i e s).2 ↔ P s ∨ raises i e)
include answer flag

theorem step_raised (c : Pool ι E R α S) (i : ι) :
    (P (step h c i).state ∨ ∃ j, Raised ans raises j ((step h c i).progs j)) ↔
      (P c.state ∨ ∃ j, Raised ans raises j (c.progs j)) := by
  cases hi : c.progs i with
  | done a =>
    have stay : step h c i = c := by simp only [step, hi]
    rw [stay]
  | ask e next =>
    have others : ∀ j, j ≠ i → (step h c i).progs j = c.progs j := by
      intro j ne
      simp only [step, hi, Function.update_of_ne ne]
    have own : (step h c i).progs i = next (ans i e) := by
      simp only [step, hi, answer, Function.update_self]
    have state : P (step h c i).state ↔ P c.state ∨ raises i e := by
      simp only [step, hi, flag]
    have turn : Raised ans raises i (c.progs i) ↔
        raises i e ∨ Raised ans raises i ((step h c i).progs i) := by
      rw [own, hi]
      rfl
    rw [state, or_assoc]
    refine or_congr_right ?_
    constructor
    · rintro (raised | ⟨j, raised⟩)
      · exact ⟨i, turn.2 (.inl raised)⟩
      · by_cases same : j = i
        · subst same
          exact ⟨j, turn.2 (.inr raised)⟩
        · exact ⟨j, others j same ▸ raised⟩
    · rintro ⟨j, raised⟩
      by_cases same : j = i
      · subst same
        exact (turn.1 raised).imp_right fun later => ⟨j, later⟩
      · exact .inr ⟨j, (others j same).symm ▸ raised⟩

theorem finished_raised (schedule : List ι) (c : Pool ι E R α S)
    (fin : (runSchedule h schedule c).Finished) :
    P (runSchedule h schedule c).state ↔ P c.state ∨ ∃ i, Raised ans raises i (c.progs i) := by
  have whole : (P (runSchedule h schedule c).state ∨
      ∃ i, Raised ans raises i ((runSchedule h schedule c).progs i)) ↔
        (P c.state ∨ ∃ i, Raised ans raises i (c.progs i)) := by
    induction schedule generalizing c with
    | nil => exact Iff.rfl
    | cons i rest ih => exact (ih _ fin).trans (step_raised h ans raises P answer flag c i)
  rw [← whole]
  refine (or_iff_left ?_).symm
  rintro ⟨i, raised⟩
  obtain ⟨a, ended⟩ := fin i
  rw [ended] at raised
  exact raised

end Flag

/-! ### One worker's part of an interleaving -/

def eventsOf (i : ι) (t : List (ι × Event R)) : List (Event R) :=
  (t.filter fun q => q.1 = i).map (·.2)

omit [DecidableEq ι] in
def replay (t : List (ι × Event R)) (s : S) : S := t.foldl (fun s q => (h q.1 q.2.1 s).2) s

theorem asked_answer {schedule : List ι} {c : Pool ι E R α S} {before after : List (ι × Event R)}
    {q : ι × Event R} (split : asked h schedule c = before ++ q :: after) :
    q.2.2 = (h q.1 q.2.1 (replay h before c.state)).1 := by
  induction schedule generalizing c before with
  | nil =>
    rw [asked] at split
    exact absurd split.symm (by simp)
  | cons i rest ih =>
    cases hi : c.progs i with
    | done a =>
      simp only [asked, hi] at split
      exact ih split
    | ask e next =>
      simp only [asked, hi] at split
      have state : (step h c i).state = (h i e c.state).2 := by
        simp only [step, hi]
      cases before with
      | nil =>
        obtain ⟨rfl, -⟩ := List.cons.inj split
        rfl
      | cons q' before =>
        obtain ⟨rfl, split'⟩ := List.cons.inj split
        rw [ih split', state]
        rfl

theorem path_eventsOf {schedule : List ι} {c : Pool ι E R α S} {i : ι} {t : List (Event R)} {a : α}
    (left : ((runSchedule h schedule c).progs i).Path t a) :
    (c.progs i).Path (eventsOf i (asked h schedule c) ++ t) a := by
  induction schedule generalizing c with
  | nil => exact left
  | cons j rest ih =>
    rw [runSchedule_cons] at left
    have later := ih left
    cases hj : c.progs j with
    | done a =>
      have stay : step h c j = c := by simp only [step, hj]
      rw [stay] at later
      simpa only [asked, hj] using later
    | ask e next =>
      simp only [asked, hj]
      by_cases same : j = i
      · subst same
        have turn : (step h c j).progs j = next (h j e c.state).1 := by
          simp [step, hj]
        rw [turn] at later
        have own : eventsOf j ((j, ⟨e, (h j e c.state).1⟩) :: asked h rest (step h c j)) =
            ⟨e, (h j e c.state).1⟩ :: eventsOf j (asked h rest (step h c j)) := by
          simp [eventsOf]
        rw [hj, own]
        exact .ask later
      · have other : eventsOf i ((j, ⟨e, (h j e c.state).1⟩) :: asked h rest (step h c j)) =
            eventsOf i (asked h rest (step h c j)) := by
          simp [eventsOf, same]
        have kept : (step h c j).progs i = c.progs i := by
          simp [step, hj, Function.update_of_ne (Ne.symm same)]
        rw [other]
        rwa [kept] at later

theorem path_of_done {schedule : List ι} {c : Pool ι E R α S} {i : ι} {a : α}
    (ended : (runSchedule h schedule c).progs i = .done a) :
    (c.progs i).Path (eventsOf i (asked h schedule c)) a := by
  have nothing_left : ((runSchedule h schedule c).progs i).Path [] a := by
    rw [ended]
    exact .done a
  have whole := path_eventsOf h nothing_left
  rwa [List.append_nil] at whole

/-! ### Every pool can be run to its end -/

theorem runSchedule_append (before after : List ι) (c : Pool ι E R α S) :
    runSchedule h (before ++ after) c = runSchedule h after (runSchedule h before c) :=
  List.foldl_append

theorem asked_append (before after : List ι) (c : Pool ι E R α S) :
    asked h (before ++ after) c = asked h before c ++ asked h after (runSchedule h before c) := by
  induction before generalizing c with
  | nil => rfl
  | cons i before ih =>
    rw [List.cons_append, runSchedule_cons]
    cases hi : c.progs i with
    | done a =>
      have stay : step h c i = c := by simp only [step, hi]
      simp only [asked, hi, stay, ih]
    | ask e next => simp only [asked, hi, ih, List.cons_append]

theorem exists_turns (i : ι) (p : Program E R α) (c : Pool ι E R α S) (hp : c.progs i = p) :
    ∃ schedule, runSchedule h schedule c =
      ⟨Function.update c.progs i (.done (p.exec (h i) c.state).1), (p.exec (h i) c.state).2⟩ := by
  induction p generalizing c with
  | done a => exact ⟨[], by rw [Program.exec, ← hp, Function.update_eq_self]; rfl⟩
  | ask e next ih =>
    have turn : step h c i =
        ⟨Function.update c.progs i (next (h i e c.state).1), (h i e c.state).2⟩ := by
      simp only [step, hp]
    obtain ⟨schedule, ended⟩ := ih (h i e c.state).1 (step h c i)
      (by rw [turn]; exact Function.update_self _ _ _)
    refine ⟨i :: schedule, ?_⟩
    rw [runSchedule_cons, ended, turn, Function.update_idem]
    rfl

theorem exists_schedule (order : List ι) (c : Pool ι E R α S) :
    ∃ schedule, ∀ i, (i ∈ order ∨ ∃ a, c.progs i = .done a) →
      ∃ a, (runSchedule h schedule c).progs i = .done a := by
  induction order generalizing c with
  | nil => exact ⟨[], fun i hi => hi.resolve_left List.not_mem_nil⟩
  | cons j rest ih =>
    obtain ⟨turns, ended⟩ := exists_turns h j (c.progs j) c rfl
    obtain ⟨schedule, rest_ended⟩ := ih (runSchedule h turns c)
    refine ⟨turns ++ schedule, fun i hi => ?_⟩
    rw [runSchedule_append]
    apply rest_ended
    rw [ended]
    by_cases same : i = j
    · subst same
      exact .inr ⟨_, Function.update_self _ _ _⟩
    · simp only [Function.update_of_ne same]
      exact hi.imp_left fun mem => (List.mem_cons.1 mem).resolve_left same

theorem exists_finished (order : List ι) (everyone : ∀ i, i ∈ order) (c : Pool ι E R α S) :
    ∃ schedule, (runSchedule h schedule c).Finished := by
  obtain ⟨schedule, ended⟩ := exists_schedule h order c
  exact ⟨schedule, fun i => ended i (.inl (everyone i))⟩

end Pool
end NxMemTest.Interaction
