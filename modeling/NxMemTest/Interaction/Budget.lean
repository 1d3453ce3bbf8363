import NxMemTest.Interaction.Program
import Mathlib.Algebra.BigOperators.Fin

/-! What a program may still spend. Every question has a cost. `Affords` bounds what is
spent as long as the answers are allowed ones, and hands what is left of the budget on
to what follows; `Always` says something of every point a run can come to. -/

namespace NxMemTest.Interaction.Program
variable {E : Type} {R : E → Type} {α β : Type}

def Always (P : Program E R α → Prop) : Program E R α → Prop
  | done a => P (done a)
  | ask e next => P (ask e next) ∧ ∀ r, Always P (next r)

namespace Always
variable {P P' : Program E R α → Prop} {p : Program E R α}

theorem here (always : Always P p) : P p := by
  cases p with
  | done a => exact always
  | ask e next => exact always.1

theorem mono (always : Always P p) (weaker : ∀ q, P q → P' q) : Always P' p := by
  induction p with
  | done a => exact weaker _ always
  | ask e next ih => exact ⟨weaker _ always.1, fun r => ih r (always.2 r)⟩

theorem after {t u : List (Event R)} {a : α} (always : Always P p) (path : Path p (t ++ u) a) :
    ∃ q, P q ∧ Path q u a := by
  induction t generalizing p with
  | nil => exact ⟨p, always.here, path⟩
  | cons e t ih =>
    cases path with
    | ask path => exact ih (always.2 _) path

theorem bind {Q : Program E R β → Prop} {f : α → Program E R β}
    (first : Always (fun q => Q (q >>= f)) p) (rest : ∀ a, Always Q (f a)) :
    Always Q (p >>= f) := by
  change Always Q (p.bind f)
  induction p with
  | done a => exact rest a
  | ask e next ih => exact ⟨first.1, fun r => ih r (first.2 r)⟩

end Always

def spent (cost : E → Nat) (t : List (Event R)) : Nat := (t.map fun e => cost e.1).sum

/-- As long as the answers are `ok`, no more than `n` is spent; the value it ends with
satisfies `Q` together with what is then left. -/
def Affords (ok : Event R → Prop) (cost : E → Nat) (n : Nat) (Q : Nat → α → Prop) :
    Program E R α → Prop
  | done a => Q n a
  | ask e next => cost e ≤ n ∧ ∀ r, ok ⟨e, r⟩ → Affords ok cost (n - cost e) Q (next r)

def Costs (cost : E → Nat) (c : Nat) (p : Program E R α) : Prop :=
  Affords (fun _ => True) cost c (fun _ _ => True) p

section
variable {ok : Event R → Prop} {cost : E → Nat} {n : Nat} {Q : Nat → α → Prop}
  {p : Program E R α}

theorem affords_call {e : E} {Q : Nat → R e → Prop} :
    Affords ok cost n Q (call e : Program E R (R e)) ↔
      cost e ≤ n ∧ ∀ r, ok ⟨e, r⟩ → Q (n - cost e) r := Iff.rfl

theorem affords_bind {f : α → Program E R β} {Q : Nat → β → Prop} :
    Affords ok cost n Q (p >>= f) ↔ Affords ok cost n (fun k a => Affords ok cost k Q (f a)) p := by
  change Affords ok cost n Q (p.bind f) ↔ _
  induction p generalizing n with
  | done a => exact Iff.rfl
  | ask e next ih => exact and_congr_right fun _ => forall_congr' fun r => imp_congr_right fun _ => ih r

theorem Affords.mono {n' : Nat} {Q' : Nat → α → Prop} (affords : Affords ok cost n Q p)
    (le : n ≤ n') (weaker : ∀ k k' a, k ≤ k' → Q k a → Q' k' a) : Affords ok cost n' Q' p := by
  induction p generalizing n n' with
  | done a => exact weaker n n' a le affords
  | ask e next ih =>
    refine ⟨Nat.le_trans affords.1 le, fun r allowed => ih r (affords.2 r allowed) ?_⟩
    omega

theorem Affords.spent_le {t : List (Event R)} {a : α} (affords : Affords ok cost n Q p)
    (path : Path p t a) (allowed : ∀ e ∈ t, ok e) : spent cost t ≤ n := by
  induction path generalizing n with
  | done a => exact Nat.zero_le n
  | @ask e next r t a path ih =>
    have rest := ih (affords.2 r (allowed _ List.mem_cons_self)) fun e he =>
      allowed e (List.mem_cons_of_mem _ he)
    have first := affords.1
    change cost e + spent cost t ≤ n
    omega

theorem Costs.mono {c c' : Nat} (costs : Costs cost c p) (le : c ≤ c') : Costs cost c' p :=
  Affords.mono costs le fun _ _ _ _ h => h

theorem costs_pure (c : Nat) (a : α) : Costs cost c (pure a : Program E R α) := trivial

theorem costs_call {e : E} {c : Nat} (le : cost e ≤ c) : Costs cost c (call e : Program E R (R e)) :=
  ⟨le, fun _ _ => trivial⟩

theorem costs_bind {c d : Nat} {f : α → Program E R β} (first : Costs cost c p)
    (rest : ∀ a, Costs cost d (f a)) : Costs cost (c + d) (p >>= f) := by
  change Costs cost _ (p.bind f)
  induction p generalizing c with
  | done a => exact (rest a).mono (Nat.le_add_left d c)
  | ask e next ih =>
    obtain ⟨le, later⟩ := first
    refine ⟨by omega, fun r _ => ?_⟩
    exact (ih r (later r trivial)).mono (by omega)

theorem costs_foldlM {c : Nat} {f : α → β → Program E R α} (each : ∀ a b, Costs cost c (f a b))
    (l : List β) (a : α) : Costs cost (l.length * c) (l.foldlM f a) := by
  induction l generalizing a with
  | nil => exact costs_pure _ a
  | cons b l ih =>
    rw [List.foldlM_cons, List.length_cons, Nat.succ_mul, Nat.add_comm]
    exact costs_bind (each a b) ih

theorem Costs.affords {c : Nat} (costs : Costs cost c p) (enough : c ≤ n)
    (left : ∀ k a, n - c ≤ k → Q k a) : Affords ok cost n Q p := by
  induction p generalizing n c with
  | done a => exact left n a (Nat.sub_le n c)
  | ask e next ih =>
    have first := costs.1
    refine ⟨Nat.le_trans first enough, fun r _ => ih r (costs.2 r trivial) (by omega) fun k a le => ?_⟩
    exact left k a (by omega)

theorem Costs.always {c : Nat} (costs : Costs cost c p) (enough : c ≤ n)
    (left : ∀ k a, n - c ≤ k → Q k a) : Always (Affords ok cost n Q) p := by
  induction p generalizing c with
  | done a => exact costs.affords enough left
  | ask e next ih =>
    refine ⟨costs.affords enough left, fun r => ?_⟩
    have less : Costs cost (c - cost e) (next r) := costs.2 r trivial
    exact ih r (less.mono (Nat.sub_le c (cost e))) enough left

theorem always_affords_bind {f : α → Program E R β} {Q : Nat → β → Prop}
    (first : Always (Affords ok cost n fun k a => Affords ok cost k Q (f a)) p)
    (rest : ∀ a, Always (Affords ok cost n Q) (f a)) : Always (Affords ok cost n Q) (p >>= f) :=
  .bind (first.mono fun _ => affords_bind.2) rest

end
end NxMemTest.Interaction.Program
