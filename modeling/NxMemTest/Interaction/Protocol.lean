import NxMemTest.Interaction.Program

/-! Protocols for what a program asks. A protocol says which questions may be asked in a
state and what an answer makes of it; histories are checked by replaying them. Nothing
is said of which answers come. -/

namespace NxMemTest.Interaction

structure Protocol (E : Type) (R : E → Type) (S : Type) where
  allows : E → S → Bool
  after : (e : E) → R e → S → S

namespace Protocol
variable {E S : Type} {R : E → Type} {α β : Type}

def replay (y : Protocol E R S) : List (Event R) → S → Option S
  | [], s => some s
  | ⟨e, r⟩ :: t, s => if y.allows e s then replay y t (y.after e r s) else none

variable {y : Protocol E R S}

theorem replay_append (t u : List (Event R)) (s : S) :
    y.replay (t ++ u) s = (y.replay t s).bind (y.replay u) := by
  induction t generalizing s with
  | nil => rfl
  | cons e t ih =>
    rw [List.cons_append, replay, replay]
    split
    · exact ih _
    · rfl

/-- Whatever is answered from `s`, each question of `p` is allowed, and it ends with `Q`. -/
def Admits (y : Protocol E R S) (s : S) (p : Program E R α) (Q : α → S → Prop) : Prop :=
  ∀ t a, Program.Path p t a → ∃ s', y.replay t s = some s' ∧ Q a s'

namespace Admits
variable {s : S} {p p' : Program E R α} {Q Q' : α → S → Prop}

theorem of_pure {a : α} (post : Q a s) : y.Admits s (pure a) Q := by
  intro t b path
  obtain ⟨rfl, rfl⟩ := Program.path_pure.1 path
  exact ⟨s, rfl, post⟩

theorem of_call {e : E} {Q : R e → S → Prop} (allowed : y.allows e s = true)
    (post : ∀ r, Q r (y.after e r s)) : y.Admits s (Program.call e) Q := by
  intro t r path
  obtain rfl := Program.path_call.1 path
  exact ⟨_, if_pos allowed, post r⟩

theorem bind {f : α → Program E R β} {T : β → S → Prop} (first : y.Admits s p Q)
    (rest : ∀ a s', Q a s' → y.Admits s' (f a) T) : y.Admits s (p >>= f) T := by
  intro t b path
  obtain ⟨a, u, v, rfl, hu, hv⟩ := Program.path_bind.1 path
  obtain ⟨s', replayed, hQ⟩ := first u a hu
  obtain ⟨s'', replayed', hT⟩ := rest a s' hQ v b hv
  refine ⟨s'', ?_, hT⟩
  rw [replay_append, replayed]
  exact replayed'

theorem call_bind {e : E} {f : R e → Program E R β} {T : β → S → Prop}
    (allowed : y.allows e s = true) (rest : ∀ r, y.Admits (y.after e r s) (f r) T) :
    y.Admits s (Program.call e >>= f) T := by
  refine bind (Q := fun r s' => s' = y.after e r s) (of_call allowed fun r => rfl) ?_
  rintro r _ rfl
  exact rest r

theorem post (admits : y.Admits s p Q) (weaker : ∀ a s', Q a s' → Q' a s') :
    y.Admits s p Q' := by
  intro t a path
  obtain ⟨s', replayed, hQ⟩ := admits t a path
  exact ⟨s', replayed, weaker a s' hQ⟩

theorem ite {c : Prop} [Decidable c] (yes : c → y.Admits s p Q) (no : ¬ c → y.Admits s p' Q) :
    y.Admits s (if c then p else p') Q := by
  split
  · exact yes ‹c›
  · exact no ‹¬ c›

end Admits
end Protocol
end NxMemTest.Interaction
