import Mathlib

/-!
Computations on a state that may end in a fault and keep the state they reached.

`EStateM` is that monad; these are the rules by which a computation in it is run.
-/

namespace Faulting

variable {ε σ α β : Type}

@[simp] lemma get_bind (f : σ → EStateM ε σ β) (s : σ) :
    (get >>= f : EStateM ε σ β) s = f s s := rfl

@[simp] lemma set_bind (t : σ) (f : PUnit → EStateM ε σ β) (s : σ) :
    (set t >>= f : EStateM ε σ β) s = f ⟨⟩ t := rfl

@[simp] lemma modify_bind (m : σ → σ) (f : PUnit → EStateM ε σ β) (s : σ) :
    (modify m >>= f : EStateM ε σ β) s = f ⟨⟩ (m s) := rfl

@[simp] lemma pure_apply (a : α) (s : σ) : (pure a : EStateM ε σ α) s = .ok a s := rfl

@[simp] lemma throw_apply (e : ε) (s : σ) : (throw e : EStateM ε σ α) s = .error e s := rfl

lemma bind_ok {x : EStateM ε σ α} {f : α → EStateM ε σ β} {s s' : σ} {a : α}
    (h : x s = .ok a s') : (x >>= f) s = f a s' := by
  change EStateM.bind x f s = f a s'
  unfold EStateM.bind
  rw [h]

lemma bind_error {x : EStateM ε σ α} {f : α → EStateM ε σ β} {s s' : σ} {e : ε}
    (h : x s = .error e s') : (x >>= f) s = .error e s' := by
  change EStateM.bind x f s = _
  unfold EStateM.bind
  rw [h]

/-- A sequence returns when both of its parts do. -/
lemma bind_eq_ok {x : EStateM ε σ α} {f : α → EStateM ε σ β} {s s' : σ} {b : β} :
    (x >>= f) s = .ok b s' ↔ ∃ a t, x s = .ok a t ∧ f a t = .ok b s' := by
  refine ⟨fun h => ?_, ?_⟩
  · cases hx : x s with
    | ok a t => exact ⟨a, t, rfl, by rwa [bind_ok hx] at h⟩
    | error e t => rw [bind_error hx] at h; cases h
  · rintro ⟨a, t, hx, hf⟩
    rw [bind_ok hx, hf]

/-- The state reached, by a return or by a fault. -/
def stateOf : EStateM.Result ε σ α → σ
  | .ok _ s => s
  | .error _ s => s

/-- A result, with the state it reached changed. -/
def mapState (f : σ → σ) : EStateM.Result ε σ α → EStateM.Result ε σ α
  | .ok a s => .ok a (f s)
  | .error e s => .error e (f s)

@[simp] lemma stateOf_ok (a : α) (s : σ) : stateOf (.ok a s : EStateM.Result ε σ α) = s := rfl
@[simp] lemma stateOf_error (e : ε) (s : σ) :
    stateOf (.error e s : EStateM.Result ε σ α) = s := rfl
@[simp] lemma mapState_ok (f : σ → σ) (a : α) (s : σ) :
    mapState f (.ok a s : EStateM.Result ε σ α) = .ok a (f s) := rfl
@[simp] lemma mapState_error (f : σ → σ) (e : ε) (s : σ) :
    mapState f (.error e s : EStateM.Result ε σ α) = .error e (f s) := rfl

/-! ### Two computations side by side -/

/-- Both return the same, or both end in the same fault; the states reached are related. -/
inductive Related (R : σ → σ → Prop) :
    EStateM.Result ε σ α → EStateM.Result ε σ α → Prop
  | ok {a s t} : R s t → Related R (.ok a s) (.ok a t)
  | error {e s t} : R s t → Related R (.error e s) (.error e t)

lemma Related.refl {R : σ → σ → Prop} (hR : ∀ s, R s s) (x : EStateM.Result ε σ α) :
    Related R x x := by
  cases x with
  | ok a s => exact .ok (hR s)
  | error e s => exact .error (hR s)

lemma Related.bind {R : σ → σ → Prop} {x y : EStateM ε σ α} {f g : α → EStateM ε σ β} {s t : σ}
    (h : Related R (x s) (y t)) (hf : ∀ a s t, R s t → Related R (f a s) (g a t)) :
    Related R ((x >>= f) s) ((y >>= g) t) := by
  cases hx : x s with
  | ok a s' =>
    cases hy : y t with
    | ok b t' =>
      rw [hx, hy] at h
      cases h with
      | ok hst =>
        rw [bind_ok hx, bind_ok hy]
        exact hf a s' t' hst
    | error e t' =>
      rw [hx, hy] at h
      cases h
  | error e s' =>
    cases hy : y t with
    | ok b t' =>
      rw [hx, hy] at h
      cases h
    | error e' t' =>
      rw [hx, hy] at h
      cases h with
      | error hst =>
        rw [bind_error hx, bind_error hy]
        exact .error hst

end Faulting
