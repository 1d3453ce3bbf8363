import NxMemTest.Interaction.Program

/-! Programs in a world that also moves by itself. The world takes turns of its own
between any two questions, and a question may have several answers, or none as yet.
`Refines` compares such a program with one that is only read as a tree: what the
first ends with, the second can end with, and no question on the way is illegal. -/

namespace NxMemTest.Interaction

/-- The turns of a world, the answers it can give, and the questions it may be asked. -/
structure Setting (W B : Type) (RB : B → Type) where
  turn : W → W → Prop
  answer : (b : B) → W → RB b → W → Prop
  legal : B → W → Prop

namespace Setting
variable {W B E : Type} {RB : B → Type} {R : E → Type} {α β γ δ : Type}

inductive Comes (y : Setting W B RB) : Program B RB α → W → Program B RB α → W → Prop
  | here (p : Program B RB α) (w : W) : Comes y p w p w
  | turn {p q : Program B RB α} {w w' w'' : W} :
      y.turn w w' → Comes y p w' q w'' → Comes y p w q w''
  | answer {b : B} {next : RB b → Program B RB α} {r : RB b} {q : Program B RB α} {w w' w'' : W} :
      y.answer b w r w' → Comes y (next r) w' q w'' → Comes y (.ask b next) w q w''

def Keeps (y : Setting W B RB) (P : W → Prop) : Prop := ∀ w w', P w → y.turn w w' → P w'

variable {y : Setting W B RB}

theorem Comes.trans {p q r : Program B RB α} {w w' w'' : W} (h : y.Comes p w q w')
    (h' : y.Comes q w' r w'') : y.Comes p w r w'' := by
  induction h with
  | here => exact h'
  | turn step _ ih => exact .turn step (ih h')
  | answer step _ ih => exact .answer step (ih h')

theorem done_ne_ask {a : α} {b : B} {next : RB b → Program B RB α} :
    Program.done a ≠ .ask b next := by
  intro same
  cases same

theorem comes_done {a : α} {q : Program B RB α} {w w' : W} (h : y.Comes (.done a) w q w')
    {P : W → Prop} (keeps : y.Keeps P) (hP : P w) : q = .done a ∧ P w' := by
  generalize start : (Program.done a : Program B RB α) = p at h
  induction h with
  | here => exact ⟨rfl, hP⟩
  | turn step _ ih => exact ih (keeps _ _ hP step) start
  | answer => exact absurd start done_ne_ask

theorem comes_bind {p : Program B RB α} {f : α → Program B RB β} {q : Program B RB β} {w w' : W}
    (h : y.Comes (p >>= f) w q w') :
    (∃ b, ∃ next : RB b → Program B RB α,
      q = .ask b (fun r => next r >>= f) ∧ y.Comes p w (.ask b next) w') ∨
      ∃ a w₁, y.Comes p w (.done a) w₁ ∧ y.Comes (f a) w₁ q w' := by
  generalize start : p >>= f = whole at h
  induction h generalizing p with
  | here whole w =>
    subst start
    cases p with
    | done a => exact .inr ⟨a, w, .here _ _, .here _ _⟩
    | ask b next => exact .inl ⟨b, next, rfl, .here _ _⟩
  | turn step _ ih =>
    rcases ih start with ⟨b, next, rfl, first⟩ | ⟨a, w₁, first, second⟩
    · exact .inl ⟨b, next, rfl, .turn step first⟩
    · exact .inr ⟨a, w₁, .turn step first, second⟩
  | @answer b rest r q w₀ w' w'' step later ih =>
    cases p with
    | done a =>
      have same : f a = .ask b rest := start
      exact .inr ⟨a, w₀, .here _ _, same ▸ .answer step later⟩
    | ask b' next =>
      cases start
      rcases ih rfl with ⟨b', next', rfl, first⟩ | ⟨a, w₁, first, second⟩
      · exact .inl ⟨b', next', rfl, .answer step first⟩
      · exact .inr ⟨a, w₁, .answer step first, second⟩

/-- From a world with `P`, every question of `p` is legal when it comes to it, and with
what `p` ends `h` can end too, related by `Q`. -/
def Refines (y : Setting W B RB) (P : W → Prop) (p : Program B RB α) (h : Program E R β)
    (Q : α → β → W → Prop) : Prop :=
  ∀ w q w', P w → y.Comes p w q w' →
    (∀ b next, q = .ask b next → y.legal b w') ∧
      ∀ a, q = .done a → ∃ t b, h.Path t b ∧ Q a b w'

namespace Refines
variable {P P' : W → Prop} {p : Program B RB α} {h : Program E R β} {Q Q' : α → β → W → Prop}

theorem of_pure {a : α} {b : β} (keeps : y.Keeps P) (post : ∀ w, P w → Q a b w) :
    y.Refines P (pure a : Program B RB α) (pure b : Program E R β) Q := by
  intro w q w' hP come
  obtain ⟨rfl, hP'⟩ := comes_done come keeps hP
  refine ⟨fun b next same => absurd same done_ne_ask, fun a' same => ?_⟩
  cases same
  exact ⟨[], b, .done b, post w' hP'⟩

theorem of_call {b : B} {h : Program E R β} {Q : RB b → β → W → Prop} (keeps : y.Keeps P)
    (legal : ∀ w, P w → y.legal b w)
    (follow : ∀ w r w', P w → y.answer b w r w' → ∃ t c, h.Path t c ∧ Q r c w')
    (kept : ∀ r c, y.Keeps (Q r c)) : y.Refines P (Program.call b) h Q := by
  intro w q w' hP come
  generalize start : (Program.call b : Program B RB (RB b)) = p at come
  induction come with
  | here =>
    subst start
    refine ⟨fun b' next same => ?_, fun a same => absurd same.symm done_ne_ask⟩
    cases same
    exact legal _ hP
  | turn step _ ih => exact ih (keeps _ _ hP step) start
  | answer step later =>
    cases start
    obtain ⟨t, c, path, post⟩ := follow _ _ _ hP step
    obtain ⟨rfl, post'⟩ := comes_done later (kept _ c) post
    refine ⟨fun b' next same => absurd same done_ne_ask, fun a same => ?_⟩
    cases same
    exact ⟨t, c, path, post'⟩

theorem bind {f : α → Program B RB γ} {g : β → Program E R δ} {T : γ → δ → W → Prop}
    (first : y.Refines P p h Q) (rest : ∀ a b, y.Refines (Q a b) (f a) (g b) T) :
    y.Refines P (p >>= f) (h >>= g) T := by
  intro w q w' hP come
  rcases comes_bind come with ⟨b, next, rfl, inside⟩ | ⟨a, w₁, ended, later⟩
  · refine ⟨fun b' next' same => ?_, fun a same => absurd same.symm done_ne_ask⟩
    cases same
    exact (first w _ w' hP inside).1 b next rfl
  · obtain ⟨t, b, path, post⟩ := (first w _ w₁ hP ended).2 a rfl
    obtain ⟨legal, ends⟩ := rest a b w₁ q w' post later
    refine ⟨legal, fun c same => ?_⟩
    obtain ⟨u, d, path', post'⟩ := ends c same
    exact ⟨t ++ u, d, Program.path_bind.2 ⟨b, t, u, rfl, path, path'⟩, post'⟩

/-- A first part that the other program has no counterpart of. -/
theorem silent {f : α → Program B RB γ} {g : Program E R δ} {T : γ → δ → W → Prop} {b : β}
    (first : y.Refines P p (pure b : Program E R β) Q)
    (rest : ∀ a, y.Refines (Q a b) (f a) g T) : y.Refines P (p >>= f) g T := by
  intro w q w' hP come
  rcases comes_bind come with ⟨b', next, rfl, inside⟩ | ⟨a, w₁, ended, later⟩
  · refine ⟨fun b' next' same => ?_, fun a same => absurd same.symm done_ne_ask⟩
    cases same
    exact (first w _ w' hP inside).1 _ next rfl
  · obtain ⟨t, c, path, post⟩ := (first w _ w₁ hP ended).2 a rfl
    obtain ⟨-, rfl⟩ := Program.path_pure.1 path
    exact rest a w₁ q w' post later

/-- A question of the other program that is answered as suits. -/
theorem choose {e : E} {r : R e} {g : R e → Program E R β} (refines : y.Refines P p (g r) Q) :
    y.Refines P p (Program.call e >>= g) Q := by
  intro w q w' hP come
  obtain ⟨legal, ends⟩ := refines w q w' hP come
  refine ⟨legal, fun a same => ?_⟩
  obtain ⟨t, b, path, post⟩ := ends a same
  exact ⟨⟨e, r⟩ :: t, b, Program.path_call_bind.2 ⟨r, t, rfl, path⟩, post⟩

theorem conseq (refines : y.Refines P p h Q) (pre : ∀ w, P' w → P w)
    (post : ∀ a b w, Q a b w → Q' a b w) : y.Refines P' p h Q' := by
  intro w q w' hP come
  obtain ⟨legal, ends⟩ := refines w q w' (pre w hP) come
  refine ⟨legal, fun a same => ?_⟩
  obtain ⟨t, b, path, hQ⟩ := ends a same
  exact ⟨t, b, path, post a b w' hQ⟩

theorem pre (refines : y.Refines P p h Q) (weaker : ∀ w, P' w → P w) : y.Refines P' p h Q :=
  refines.conseq weaker fun _ _ _ post => post

/-- What the precondition says beside the world may be used at once. -/
theorem of_and {φ : Prop} (refines : φ → y.Refines P p h Q) :
    y.Refines (fun w => φ ∧ P w) p h Q := fun w q w' hP => refines hP.1 w q w' hP.2

theorem of_exists {ι : Type} {P : ι → W → Prop} (refines : ∀ x, y.Refines (P x) p h Q) :
    y.Refines (fun w => ∃ x, P x w) p h Q := by
  rintro w q w' ⟨x, hP⟩
  exact refines x w q w' hP

theorem ite {c : Prop} [Decidable c] {p' : Program B RB α} {h' : Program E R β}
    (yes : c → y.Refines P p h Q) (no : ¬ c → y.Refines P p' h' Q) :
    y.Refines P (if c then p else p') (if c then h else h') Q := by
  by_cases hc : c
  · rw [if_pos hc, if_pos hc]
    exact yes hc
  · rw [if_neg hc, if_neg hc]
    exact no hc

end Refines

end Setting

/-! ### Runs that are led to their end -/

namespace Program
variable {E : Type} {R : E → Type} {α β : Type}

inductive After : Nat → Program E R α → Program E R α → Prop
  | here (p : Program E R α) : After 0 p p
  | answer {e : E} {next : R e → Program E R α} (r : R e) {n : Nat} {q : Program E R α} :
      After n (next r) q → After (n + 1) (ask e next) q

/-- Whatever the first `n` answers are, if all later ones are `kind` the program ends with
`G`, of what is then left of `n` too. -/
def Lasts (kind : Event R → Prop) (G : Nat → α → Prop) : Nat → Program E R α → Prop
  | n, done a => G n a
  | 0, ask e next => ∀ r, kind ⟨e, r⟩ → Lasts kind G 0 (next r)
  | n + 1, ask _ next => ∀ r, Lasts kind G n (next r)

section
variable {kind : Event R → Prop} {G : Nat → α → Prop} {n : Nat} {p q : Program E R α}

theorem Lasts.bind {G : Nat → β → Prop} {f : α → Program E R β}
    (first : Lasts kind (fun k a => Lasts kind G k (f a)) n p) : Lasts kind G n (p >>= f) := by
  change Lasts kind G n (p.bind f)
  induction p generalizing n with
  | done a => cases n <;> exact first
  | ask e next ih =>
    cases n with
    | zero => exact fun r ok => ih r (first r ok)
    | succ n => exact fun r => ih r (first r)

theorem Lasts.mono {G' : Nat → α → Prop} (lasts : Lasts kind G n p)
    (weaker : ∀ k ≤ n, ∀ a, G k a → G' k a) : Lasts kind G' n p := by
  induction p generalizing n with
  | done a => cases n <;> exact weaker _ (Nat.le_refl _) a lasts
  | ask e next ih =>
    cases n with
    | zero => exact fun r ok => ih r (lasts r ok) weaker
    | succ n => exact fun r => ih r (lasts r) fun k le a => weaker k (by omega) a

theorem Lasts.after (lasts : Lasts kind G n p) (after : After n p q) : Lasts kind G 0 q := by
  induction after with
  | here => exact lasts
  | answer r _ ih => exact ih (lasts r)

end
end Program

namespace Setting
variable {W B : Type} {RB : B → Type} {α : Type} {y : Setting W B RB}

theorem Comes.after {p q : Program B RB α} {w w' : W} (come : y.Comes p w q w') :
    ∃ n, Program.After n p q := by
  induction come with
  | here p w => exact ⟨0, .here p⟩
  | turn _ _ ih => exact ih
  | answer _ _ ih =>
    obtain ⟨n, after⟩ := ih
    exact ⟨n + 1, .answer _ after⟩

def CanEnd (y : Setting W B RB) (p : Program B RB α) (w : W) (Q : α → Prop) : Prop :=
  ∃ a w', Q a ∧ y.Comes p w (.done a) w'

namespace CanEnd
variable {Q : α → Prop} {w w' : W}

theorem done {a : α} (good : Q a) : y.CanEnd (.done a) w Q := ⟨a, w, good, .here _ _⟩

theorem of_comes {p q : Program B RB α} (come : y.Comes p w q w') (ends : y.CanEnd q w' Q) :
    y.CanEnd p w Q := by
  obtain ⟨a, w'', good, later⟩ := ends
  exact ⟨a, w'', good, come.trans later⟩

theorem answer {b : B} {next : RB b → Program B RB α} {r : RB b} (step : y.answer b w r w')
    (ends : y.CanEnd (next r) w' Q) : y.CanEnd (.ask b next) w Q :=
  .of_comes (.answer step (.here _ _)) ends

end CanEnd

end Setting
end NxMemTest.Interaction
