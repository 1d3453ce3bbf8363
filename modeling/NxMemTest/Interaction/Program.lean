import Mathlib.Data.List.Basic
import Mathlib.Tactic.Common

/-! Programs that act only by asking their environment questions. A program is
the tree of its questions; a handler answers them over a state, a path is one
list of answers whoever gave them. The three readings agree, and every rule
below is compositional in `bind`. -/

namespace NxMemTest.Interaction

inductive Program (E : Type) (R : E → Type) (α : Type) where
  | done (a : α)
  | ask (e : E) (next : R e → Program E R α)

abbrev Event {E : Type} (R : E → Type) := (e : E) × R e

namespace Program
variable {E : Type} {R : E → Type} {α β σ : Type}

def bind : Program E R α → (α → Program E R β) → Program E R β
  | done a, f => f a
  | ask e next, f => ask e fun r => (next r).bind f

instance : Monad (Program E R) where
  pure := done
  bind := bind

theorem bind_done (p : Program E R α) : p.bind done = p := by
  induction p with
  | done a => rfl
  | ask e next ih => exact congrArg (ask e) (funext ih)

theorem bind_assoc {γ : Type} (p : Program E R α) (f : α → Program E R β)
    (g : β → Program E R γ) : (p.bind f).bind g = p.bind fun a => (f a).bind g := by
  induction p with
  | done a => rfl
  | ask e next ih => exact congrArg (ask e) (funext ih)

instance : LawfulMonad (Program E R) :=
  LawfulMonad.mk' _ bind_done (fun _ _ => rfl) bind_assoc

def call (e : E) : Program E R (R e) := ask e done

/-! ### Running against a handler -/

def exec (h : (e : E) → σ → R e × σ) : Program E R α → σ → α × σ
  | done a, s => (a, s)
  | ask e next, s => exec h (next (h e s).1) (h e s).2

def trace (h : (e : E) → σ → R e × σ) : Program E R α → σ → List (Event R)
  | done _, _ => []
  | ask e next, s => ⟨e, (h e s).1⟩ :: trace h (next (h e s).1) (h e s).2

variable (h : (e : E) → σ → R e × σ)

@[simp] theorem exec_pure (a : α) (s : σ) :
    exec h (pure a : Program E R α) s = (a, s) := rfl

@[simp] theorem exec_call (e : E) (s : σ) : exec h (call e) s = h e s := rfl

theorem exec_bind (p : Program E R α) (f : α → Program E R β) (s : σ) :
    exec h (p >>= f) s = exec h (f (exec h p s).1) (exec h p s).2 := by
  change exec h (p.bind f) s = _
  induction p generalizing s with
  | done a => rfl
  | ask e next ih => exact ih _ _

theorem exec_bind_of {p : Program E R α} {s s' : σ} {a : α} (hp : exec h p s = (a, s'))
    (f : α → Program E R β) : exec h (p >>= f) s = exec h (f a) s' := by
  rw [exec_bind, hp]

@[simp] theorem exec_call_bind (e : E) (f : R e → Program E R β) (s : σ) :
    exec h (call e >>= f) s = exec h (f (h e s).1) (h e s).2 := rfl

@[simp] theorem trace_pure (a : α) (s : σ) :
    trace h (pure a : Program E R α) s = [] := rfl

theorem trace_bind (p : Program E R α) (f : α → Program E R β) (s : σ) :
    trace h (p >>= f) s =
      trace h p s ++ trace h (f (exec h p s).1) (exec h p s).2 := by
  change trace h (p.bind f) s = _
  induction p generalizing s with
  | done a => rfl
  | ask e next ih => exact congrArg _ (ih _ _)

theorem trace_bind_of {p : Program E R α} {s s' : σ} {a : α} (hp : exec h p s = (a, s'))
    (f : α → Program E R β) : trace h (p >>= f) s = trace h p s ++ trace h (f a) s' := by
  rw [trace_bind, hp]

@[simp] theorem trace_call (e : E) (s : σ) :
    trace h (call e) s = [⟨e, (h e s).1⟩] := rfl

def visits (h : (e : E) → σ → R e × σ) : Program E R α → σ → List (E × σ)
  | done _, _ => []
  | ask e next, s => (e, s) :: visits h (next (h e s).1) (h e s).2

theorem trace_eq_visits (p : Program E R α) (s : σ) :
    trace h p s = (visits h p s).map fun v => ⟨v.1, (h v.1 v.2).1⟩ := by
  induction p generalizing s with
  | done a => rfl
  | ask e next ih => exact congrArg _ (ih _ _)

theorem mem_trace {p : Program E R α} {s : σ} {e : Event R} (he : e ∈ trace h p s) :
    ∃ s', e.2 = (h e.1 s').1 := by
  rw [trace_eq_visits] at he
  obtain ⟨v, -, rfl⟩ := List.mem_map.1 he
  exact ⟨v.2, rfl⟩

/-! ### Paths: answers from an arbitrary environment -/

inductive Path : Program E R α → List (Event R) → α → Prop
  | done (a : α) : Path (done a) [] a
  | ask {e : E} {next : R e → Program E R α} {r : R e} {t : List (Event R)} {a : α} :
      Path (next r) t a → Path (ask e next) (⟨e, r⟩ :: t) a

theorem path_trace (p : Program E R α) (s : σ) : Path p (trace h p s) (exec h p s).1 := by
  induction p generalizing s with
  | done a => exact .done a
  | ask e next ih => exact .ask (ih _ _)

theorem path_of_exec_map {p : Program E R (Option α)} {s : σ} {f : α → β} {b : β}
    (ends : (exec h p s).1.map f = some b) : ∃ a, Path p (trace h p s) (some a) ∧ f a = b := by
  obtain ⟨a, ran, value⟩ := Option.map_eq_some_iff.1 ends
  exact ⟨a, ran ▸ path_trace h p s, value⟩

@[simp] theorem path_pure {a b : α} {t : List (Event R)} :
    Path (pure a : Program E R α) t b ↔ t = [] ∧ b = a := by
  constructor
  · intro hp
    cases hp
    exact ⟨rfl, rfl⟩
  · rintro ⟨rfl, rfl⟩
    exact .done b

theorem path_bind {p : Program E R α} {f : α → Program E R β} {t : List (Event R)} {b : β} :
    Path (p >>= f) t b ↔ ∃ a u v, t = u ++ v ∧ Path p u a ∧ Path (f a) v b := by
  change Path (p.bind f) t b ↔ _
  induction p generalizing t with
  | done a =>
    constructor
    · intro hp
      exact ⟨a, [], t, rfl, .done a, hp⟩
    · rintro ⟨a', u, v, rfl, hu, hv⟩
      cases hu
      exact hv
  | ask e next ih =>
    constructor
    · intro hp
      cases hp with
      | @ask _ _ r t _ hp =>
        obtain ⟨a, u, v, rfl, hu, hv⟩ := (ih r).1 hp
        exact ⟨a, ⟨e, r⟩ :: u, v, rfl, .ask hu, hv⟩
    · rintro ⟨a, u, v, rfl, hu, hv⟩
      cases hu with
      | ask hu => exact .ask ((ih _).2 ⟨a, _, v, rfl, hu, hv⟩)

@[simp] theorem path_call {e : E} {t : List (Event R)} {r : R e} :
    Path (call e) t r ↔ t = [⟨e, r⟩] := by
  constructor
  · intro hp
    cases hp with
    | ask hp => cases hp; rfl
  · rintro rfl
    exact .ask (.done r)

theorem path_call_bind {e : E} {f : R e → Program E R β} {t : List (Event R)} {b : β} :
    Path (call e >>= f) t b ↔ ∃ r u, t = ⟨e, r⟩ :: u ∧ Path (f r) u b := by
  rw [path_bind]
  constructor
  · rintro ⟨r, u, v, rfl, hu, hv⟩
    rw [path_call] at hu
    exact ⟨r, v, by rw [hu]; rfl, hv⟩
  · rintro ⟨r, u, rfl, hu⟩
    exact ⟨r, [⟨e, r⟩], u, rfl, path_call.2 rfl, hu⟩

/-! ### Which questions a program may ask -/

def Uses (A : E → Prop) : Program E R α → Prop
  | done _ => True
  | ask e next => A e ∧ ∀ r, Uses A (next r)

variable {A : E → Prop}

@[simp] theorem uses_pure (a : α) : Uses A (pure a : Program E R α) := trivial

@[simp] theorem uses_call {e : E} : Uses A (call e : Program E R (R e)) ↔ A e :=
  ⟨fun u => u.1, fun a => ⟨a, fun _ => trivial⟩⟩

theorem uses_bind {p : Program E R α} {f : α → Program E R β} (hp : Uses A p)
    (hf : ∀ a, Uses A (f a)) : Uses A (p >>= f) := by
  change Uses A (p.bind f)
  induction p with
  | done a => exact hf a
  | ask e next ih => exact ⟨hp.1, fun r => ih r (hp.2 r)⟩

theorem Uses.mono {B : E → Prop} {p : Program E R α} (hp : Uses A p) (hAB : ∀ e, A e → B e) :
    Uses B p := by
  induction p with
  | done a => trivial
  | ask e next ih => exact ⟨hAB e hp.1, fun r => ih r (hp.2 r)⟩

theorem uses_foldlM_mem {β : Type} {f : α → β → Program E R α} {l : List β}
    (hf : ∀ a, ∀ b ∈ l, Uses A (f a b)) (a : α) : Uses A (l.foldlM f a) := by
  induction l generalizing a with
  | nil => exact trivial
  | cons b l ih =>
    rw [List.foldlM_cons]
    exact uses_bind (hf a b List.mem_cons_self)
      (ih fun a b hb => hf a b (List.mem_cons_of_mem _ hb))

theorem Path.asked {p : Program E R α} {t : List (Event R)} {a : α} (hp : Path p t a)
    (uses : Uses A p) : ∀ e ∈ t, A e.1 := by
  induction hp with
  | done a => simp
  | ask hp ih =>
    intro e he
    rcases List.mem_cons.1 he with rfl | he
    · exact uses.1
    · exact ih (uses.2 _) e he

theorem Uses.exec_inv {h : (e : E) → σ → R e × σ} {I : σ → Prop}
    (keep : ∀ e s, A e → I s → I (h e s).2) {p : Program E R α} (uses : Uses A p) {s : σ}
    (hs : I s) : I (exec h p s).2 := by
  induction p generalizing s with
  | done a => exact hs
  | ask e next ih => exact ih _ (uses.2 _) (keep e s uses.1 hs)

theorem Uses.visited {h : (e : E) → σ → R e × σ} {p : Program E R α} (uses : Uses A p) (s : σ) :
    ∀ v ∈ visits h p s, A v.1 := by
  induction p generalizing s with
  | done a => simp [visits]
  | ask e next ih =>
    intro v hv
    rcases List.mem_cons.1 hv with rfl | hv
    · exact uses.1
    · exact ih _ (uses.2 _) _ v hv

/-! ### The answer that decides a result -/

/-- The program ends with `a` as soon as `e` is answered `r`, and in no other way. -/
def DecidedBy (e : E) (r : R e) (a : α) : Program E R α → Prop
  | done b => b ≠ a
  | ask e' next => ∀ r', ((⟨e', r'⟩ : Event R) = ⟨e, r⟩ → next r' = done a) ∧
      ((⟨e', r'⟩ : Event R) ≠ ⟨e, r⟩ → DecidedBy e r a (next r'))

section
variable {e : E} {r : R e}

theorem decidedBy_pure {a b : α} (other : b ≠ a) :
    DecidedBy e r a (pure b : Program E R α) := other

theorem decidedBy_bind {b : β} {p : Program E R α} {f : α → Program E R β}
    (earlier : Uses (· ≠ e) p) (later : ∀ a, DecidedBy e r b (f a)) :
    DecidedBy e r b (p >>= f) := by
  change DecidedBy e r b (p.bind f)
  induction p with
  | done a => exact later a
  | ask e' next ih =>
    intro r'
    refine ⟨fun same => absurd (congrArg Sigma.fst same) earlier.1, fun _ => ?_⟩
    exact ih r' (earlier.2 r')

theorem decidedBy_call {a : α} {f : R e → Program E R α} (ends : f r = pure a)
    (goes_on : ∀ r' ≠ r, DecidedBy e r a (f r')) : DecidedBy e r a (call e >>= f) := by
  intro r'
  constructor
  · intro same
    obtain rfl := eq_of_heq (Sigma.mk.inj same).2
    exact ends
  · intro other
    exact goes_on r' fun same => other (congrArg (Sigma.mk e) same)

end

/-! ### Two environments that agree until an answer separates them -/

/-- Two handlers that do the same whenever they answer the same see the same
run, up to the first question they answer differently. -/
theorem exec_parting (h' : (e : E) → σ → R e × σ)
    (agree : ∀ e s, (h e s).1 = (h' e s).1 → (h e s).2 = (h' e s).2)
    (p : Program E R α) (s : σ) :
    (exec h p s = exec h' p s ∧ trace h p s = trace h' p s) ∨
      ∃ (e : E) (s' : σ) (t u u' : List (Event R)), (h e s').1 ≠ (h' e s').1 ∧
        trace h p s = t ++ ⟨e, (h e s').1⟩ :: u ∧ trace h' p s = t ++ ⟨e, (h' e s').1⟩ :: u' := by
  induction p generalizing s with
  | done a => exact .inl ⟨rfl, rfl⟩
  | ask e next ih =>
    by_cases same : (h e s).1 = (h' e s).1
    · have rest := ih (h e s).1 (h e s).2
      simp only [exec, trace, ← same, ← agree e s same]
      rcases rest with ⟨value, events⟩ | ⟨e', s', t, u, u', ne, ht, ht'⟩
      · exact .inl ⟨value, by rw [events]⟩
      · refine .inr ⟨e', s', ⟨e, (h e s).1⟩ :: t, u, u', ne, ?_, ?_⟩
        · rw [ht, List.cons_append]
        · rw [ht', List.cons_append]
    · exact .inr ⟨e, s, [], _, _, same, rfl, rfl⟩

/-! ### Two programs side by side -/

/-- From every state the two programs end in the same state, with results that
`S` relates. -/
def Agree (S : α → β → Prop) (p : Program E R α) (q : Program E R β) : Prop :=
  ∀ s, S (exec h p s).1 (exec h q s).1 ∧ (exec h p s).2 = (exec h q s).2

namespace Agree
variable {h} {S : α → β → Prop} {p p' : Program E R α} {q q' : Program E R β}

theorem refl (p : Program E R α) : Agree h Eq p p := fun _ => ⟨rfl, rfl⟩

theorem of_pure {a : α} {b : β} (related : S a b) :
    Agree h S (pure a : Program E R α) (pure b : Program E R β) := fun _ => ⟨related, rfl⟩

theorem bind {γ δ : Type} {T : γ → δ → Prop} {f : α → Program E R γ} {g : β → Program E R δ}
    (first : Agree h S p q) (rest : ∀ a b, S a b → Agree h T (f a) (g b)) :
    Agree h T (p >>= f) (q >>= g) := by
  intro s
  rw [exec_bind, exec_bind, ← (first s).2]
  exact rest _ _ (first s).1 _

theorem ite {c : Prop} [Decidable c] (yes : c → Agree h S p q) (no : ¬ c → Agree h S p' q') :
    Agree h S (if c then p else p') (if c then q else q') := by
  by_cases hc : c
  · rw [if_pos hc, if_pos hc]
    exact yes hc
  · rw [if_neg hc, if_neg hc]
    exact no hc

theorem of_quiet {b : β} (quiet : ∀ s, (exec h p s).2 = s) (related : ∀ a, S a b) :
    Agree h S p (pure b : Program E R β) := fun s => ⟨related _, quiet s⟩

end Agree
end Program
end NxMemTest.Interaction
