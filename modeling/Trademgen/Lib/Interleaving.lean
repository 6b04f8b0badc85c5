import Mathlib

/-!
Components that take their steps in turn: the steps of one of them, read off an interleaved run,
are a run of that component alone, and two runs whose steps simulate each other one by one put
out the same things.
-/

namespace Interleaving

variable {σ τ α β ο π : Type}

/-- A run of a step relation, with the actions and what each of them put out. -/
inductive Run (step : σ → α → ο → σ → Prop) : σ → List (α × ο) → σ → Prop
  | nil {s} : Run step s [] s
  | cons {s t u a o l} : step s a o t → Run step t l u → Run step s ((a, o) :: l) u

/-- What a component takes part in, of the actions of a run. -/
def project (own : α → ο → Option (β × π)) (l : List (α × ο)) : List (β × π) :=
  l.filterMap fun x => own x.1 x.2

section Project

variable {own : α → ο → Option (β × π)} {a : α} {o : ο} {l : List (α × ο)}

@[simp] lemma project_nil : project own [] = [] := rfl

lemma project_cons_some {x : β × π} (h : own a o = some x) :
    project own ((a, o) :: l) = x :: project own l :=
  List.filterMap_cons_some h

lemma project_cons_none (h : own a o = none) : project own ((a, o) :: l) = project own l :=
  List.filterMap_cons_none h

/-- **Projection**: where the steps of a component are steps of its own state, and the other ones
leave that state alone, a run of all is a run of the component. -/
theorem Run.project {step : σ → α → ο → σ → Prop} {own_step : τ → β → π → τ → Prop} (view : σ → τ)
    (hown : ∀ {s a o t b p}, step s a o t → own a o = some (b, p) →
      own_step (view s) b p (view t))
    (hother : ∀ {s a o t}, step s a o t → own a o = none → view t = view s) {s t : σ}
    (h : Run step s l t) : Run own_step (view s) (project own l) (view t) := by
  induction h with
  | nil => exact .nil
  | @cons s t u a o l hstep _ ih =>
    cases ho : own a o with
    | none =>
      rw [project_cons_none ho, ← hother hstep ho]
      exact ih
    | some x =>
      rw [project_cons_some ho]
      exact .cons (hown hstep ho) ih

end Project

/-- **Simulation**: runs from related states, of actions that match one by one, put out things
that match one by one. -/
theorem Run.simulates {step : σ → α → ο → σ → Prop} {step' : τ → β → π → τ → Prop}
    {R : σ → τ → Prop} {A : α → β → Prop} {O : ο → π → Prop}
    (hsim : ∀ {s t a b o p s' t'}, R s t → A a b → step s a o s' → step' t b p t' →
      R s' t' ∧ O o p)
    {s s' : σ} {t t' : τ} {l : List (α × ο)} {k : List (β × π)} (hl : Run step s l s')
    (hk : Run step' t k t') (hst : R s t)
    (hact : List.Forall₂ A (l.map Prod.fst) (k.map Prod.fst)) :
    List.Forall₂ O (l.map Prod.snd) (k.map Prod.snd) := by
  induction hl generalizing t k with
  | nil =>
    cases k with
    | nil => exact .nil
    | cons x k => simp at hact
  | cons hstep _ ih =>
    cases hk with
    | nil => simp at hact
    | cons hstep' hk =>
      obtain ⟨hab, hrest⟩ := List.forall₂_cons.mp hact
      obtain ⟨hnext, hout⟩ := hsim hst hab hstep hstep'
      exact .cons hout (ih hk hnext hrest)

end Interleaving
