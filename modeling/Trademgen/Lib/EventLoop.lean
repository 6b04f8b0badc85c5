import Mathlib

/-!
A loop that takes the earliest item of a queue and asks its source for the next one.

Items may be stamped later than they are due: the clock of the loop does not run ahead of them by
more than the largest delay. Where every source has at most one item in the queue, the loop takes from each
of them its leading items, up to the first one that is refused.
-/

set_option linter.unusedSectionVars false

namespace EventLoop

/-! ### The clock -/

section Clock

variable {ε τ : Type} [AddCommGroup τ] [LinearOrder τ] [IsOrderedAddMonoid τ]
  {due stamp : ε → τ} {d : τ}

/-- The item is stamped when it is due, or later by at most `d`. -/
def Stamped (due stamp : ε → τ) (d : τ) (e : ε) : Prop := due e ≤ stamp e ∧ stamp e ≤ due e + d

/-- The items taken from a queue, one after the other: each is the earliest there, and what comes
in its place is due no earlier. -/
inductive Takes (due stamp : ε → τ) (d : τ) : Multiset ε → List ε → Prop
  | nil (M : Multiset ε) : Takes due stamp d M []
  | cons {R A : Multiset ε} {e : ε} {l : List ε} : (∀ x ∈ R, stamp e ≤ stamp x) →
      (∀ a ∈ A, due e ≤ due a ∧ Stamped due stamp d a) → Takes due stamp d (R + A) l →
      Takes due stamp d (e ::ₘ R) (e :: l)

/-- What is due later than all of the queue stays so. -/
lemma Takes.le_due {M : Multiset ε} {l : List ε} (h : Takes due stamp d M l) {b : τ}
    (hb : ∀ x ∈ M, b ≤ due x) : ∀ x ∈ l, b ≤ due x := by
  induction h with
  | nil M => simp
  | @cons R A e l _ hA _ ih =>
    have he : b ≤ due e := hb e (Multiset.mem_cons_self e R)
    refine List.forall_mem_cons.mpr ⟨he, ih fun x hx => ?_⟩
    rcases Multiset.mem_add.mp hx with hx | hx
    · exact hb x (Multiset.mem_cons_of_mem hx)
    · exact he.trans (hA x hx).1

/-- **The clock** does not run ahead of what is still to be taken by more than the delay. -/
theorem Takes.clock {M : Multiset ε} {l : List ε} (h : Takes due stamp d M l)
    (hM : ∀ x ∈ M, Stamped due stamp d x) : l.Pairwise fun e e' => stamp e ≤ due e' + d := by
  induction h with
  | nil M => exact .nil
  | @cons R A e l hR hA hl ih =>
    have hstamped : ∀ x ∈ R + A, Stamped due stamp d x := by
      intro x hx
      rcases Multiset.mem_add.mp hx with hx | hx
      · exact hM x (Multiset.mem_cons_of_mem hx)
      · exact (hA x hx).2
    -- Nothing left in the queue is due earlier than the stamp just taken, less the delay.
    have hdue : ∀ x ∈ R + A, stamp e - d ≤ due x := by
      intro x hx
      rw [sub_le_iff_le_add]
      rcases Multiset.mem_add.mp hx with hx | hx
      · exact (hR x hx).trans (hM x (Multiset.mem_cons_of_mem hx)).2
      · exact (hM e (Multiset.mem_cons_self e R)).2.trans (add_le_add_left (hA x hx).1 d)
    exact List.pairwise_cons.mpr
      ⟨fun x hx => sub_le_iff_le_add.mp (hl.le_due hdue x hx), ih hstamped⟩

end Clock

/-! ### The sources -/

section Sources

variable {ι α : Type} [DecidableEq ι]

/-- The items in the queue with their sources, and what each source has still to give. -/
structure State (ι α : Type) where
  queue : Multiset (ι × α)
  rest : ι → List α

/-- The items of a source that wait in the queue. -/
def State.pending (s : State ι α) (i : ι) : Multiset α :=
  (s.queue.filter fun x => x.1 = i).map Prod.snd

lemma pending_cons (q : Multiset (ι × α)) (rest rest' : ι → List α) (i : ι) (a : α) :
    State.pending ⟨(i, a) ::ₘ q, rest⟩ i = a ::ₘ State.pending ⟨q, rest'⟩ i := by
  simp [State.pending]

lemma pending_cons_of_ne {i j : ι} (h : i ≠ j) (q : Multiset (ι × α)) (rest rest' : ι → List α)
    (a : α) : State.pending ⟨(i, a) ::ₘ q, rest⟩ j = State.pending ⟨q, rest'⟩ j := by
  simp [State.pending, h]

/-- A source is asked for its next item, which is let into the queue or lost. -/
inductive Asks (admits : α → Bool) (i : ι) : State ι α → State ι α → Prop
  | spent {q : Multiset (ι × α)} {rest : ι → List α} : rest i = [] →
      Asks admits i ⟨q, rest⟩ ⟨q, rest⟩
  | admitted {q : Multiset (ι × α)} {rest : ι → List α} {b : α} {r : List α} : rest i = b :: r →
      admits b = true → Asks admits i ⟨q, rest⟩ ⟨(i, b) ::ₘ q, Function.update rest i r⟩
  | refused {q : Multiset (ι × α)} {rest : ι → List α} {b : α} {r : List α} : rest i = b :: r →
      admits b = false → Asks admits i ⟨q, rest⟩ ⟨q, Function.update rest i r⟩

/-- An item is taken from the queue, and its source is asked for the next one. -/
inductive Step (admits : α → Bool) : State ι α → ι × α → State ι α → Prop
  | mk {q : Multiset (ι × α)} {rest : ι → List α} {e : ι × α} {t : State ι α} :
      Asks admits e.1 ⟨q, rest⟩ t → Step admits ⟨e ::ₘ q, rest⟩ e t

/-- The items taken in a run. -/
inductive Run (admits : α → Bool) : State ι α → List (ι × α) → State ι α → Prop
  | nil {s : State ι α} : Run admits s [] s
  | cons {s t u : State ι α} {e : ι × α} {l : List (ι × α)} :
      Step admits s e t → Run admits t l u → Run admits s (e :: l) u

/-- What will be taken from a source: its item in the queue, and those that follow it up to the
first one refused. -/
inductive Leads (admits : α → Bool) (s : State ι α) (i : ι) : List α → Prop
  | idle : s.pending i = 0 → Leads admits s i []
  | waiting (a : α) : s.pending i = {a} → Leads admits s i (a :: (s.rest i).takeWhile admits)

variable {admits : α → Bool} {s t : State ι α} {i j : ι} {l : List α}

lemma Leads.congr (h : Leads admits s j l) (hpending : t.pending j = s.pending j)
    (hrest : t.rest j = s.rest j) : Leads admits t j l := by
  cases h with
  | idle h => exact .idle (hpending.trans h)
  | waiting a h =>
    rw [← hrest]
    exact .waiting a (hpending.trans h)

/-- A source asked while it has nothing in the queue gives its leading items. -/
lemma Asks.leads (h : Asks admits i s t) (hs : s.pending i = 0) :
    Leads admits t i ((s.rest i).takeWhile admits) := by
  cases h with
  | spent hrest =>
    rw [show State.rest ⟨_, _⟩ i = [] from hrest]
    exact .idle hs
  | @admitted q rest b r hrest hb =>
    have hpending : State.pending ⟨(i, b) ::ₘ q, Function.update rest i r⟩ i = {b} := by
      rw [pending_cons q _ rest, hs, Multiset.cons_zero]
    have hlead : Leads admits ⟨(i, b) ::ₘ q, Function.update rest i r⟩ i _ := .waiting b hpending
    rw [show State.rest ⟨q, rest⟩ i = b :: r from hrest, List.takeWhile_cons_of_pos hb]
    simpa using hlead
  | @refused q rest b r hrest hb =>
    rw [show State.rest ⟨q, rest⟩ i = b :: r from hrest, List.takeWhile_cons_of_neg (by simp [hb])]
    exact .idle hs

/-- The other sources do not notice. -/
lemma Asks.leads_of_ne (h : Asks admits i s t) (hij : i ≠ j) (hj : Leads admits s j l) :
    Leads admits t j l := by
  cases h with
  | spent => exact hj
  | admitted => exact hj.congr (pending_cons_of_ne hij ..) (Function.update_of_ne hij.symm ..)
  | refused => exact hj.congr rfl (Function.update_of_ne hij.symm ..)

/-- **A step** takes the first of what its source leads with. -/
lemma Step.leads {e : ι × α} (h : Step admits s e t) (hl : Leads admits s j l) :
    ∃ l', Leads admits t j l' ∧ l = (if e.1 = j then [e.2] else []) ++ l' := by
  obtain @⟨q, rest, ⟨i, a⟩, _, hask⟩ := h
  by_cases hij : i = j
  · subst hij
    have hcons := pending_cons q rest rest i a
    cases hl with
    | idle h0 => exact absurd (hcons.symm.trans h0) Multiset.cons_ne_zero
    | waiting b hb =>
      obtain ⟨rfl, hzero⟩ := (Multiset.singleton_eq_cons_iff _).mp (hb.symm.trans hcons)
      exact ⟨_, hask.leads hzero, by simp⟩
  · refine ⟨l, hask.leads_of_ne hij (hl.congr ?_ rfl), by simp [hij]⟩
    exact (pending_cons_of_ne hij q rest rest a).symm

/-- **A run** takes from every source the first of what it leads with. -/
theorem Run.leads {es : List (ι × α)} (h : Run admits s es t) (hl : Leads admits s j l) :
    ∃ l', Leads admits t j l' ∧ l = (es.filter fun e => e.1 = j).map Prod.snd ++ l' := by
  induction h generalizing l with
  | nil => exact ⟨l, hl, by simp⟩
  | cons hstep _ ih =>
    obtain ⟨l₁, hl₁, rfl⟩ := hstep.leads hl
    obtain ⟨l', hl', rfl⟩ := ih hl₁
    refine ⟨l', hl', ?_⟩
    rw [List.filter_cons]
    split_ifs <;> simp_all

/-- A run to an empty queue takes from every source all that it leads with. -/
theorem Run.leads_all {es : List (ι × α)} (h : Run admits s es t) (hl : Leads admits s j l)
    (ht : t.queue = 0) : (es.filter fun e => e.1 = j).map Prod.snd = l := by
  obtain ⟨l', hl', rfl⟩ := h.leads hl
  cases hl' with
  | idle => simp
  | waiting a ha => simp [State.pending, ht] at ha

/-! What is still to come, as a number. -/

/-- Twice what the sources have still to give, and the items in the queue. -/
def State.weight (L : Finset ι) (s : State ι α) : ℕ :=
  (∑ i ∈ L, 2 * (s.rest i).length) + Multiset.card s.queue

lemma sum_update {L : Finset ι} (hi : i ∈ L) {rest : ι → List α} {b : α} {r : List α}
    (h : rest i = b :: r) :
    (∑ j ∈ L, 2 * (Function.update rest i r j).length) + 2 = ∑ j ∈ L, 2 * (rest j).length := by
  rw [← Finset.add_sum_erase L _ hi, ← Finset.add_sum_erase L (fun j => 2 * (rest j).length) hi]
  have hrest : ∑ j ∈ L.erase i, 2 * (Function.update rest i r j).length
      = ∑ j ∈ L.erase i, 2 * (rest j).length :=
    Finset.sum_congr rfl fun j hj => by rw [Function.update_of_ne (Finset.ne_of_mem_erase hj)]
  rw [hrest, Function.update_self, h, List.length_cons]
  ring

/-- Every step makes it smaller. -/
lemma Step.weight_lt {L : Finset ι} {e : ι × α} (h : Step admits s e t) (he : e.1 ∈ L) :
    t.weight L < s.weight L := by
  obtain @⟨q, rest, _, _, hask⟩ := h
  unfold State.weight
  dsimp only
  rw [Multiset.card_cons]
  cases hask with
  | spent => exact Nat.lt_succ_self _
  | admitted hrest hb =>
    have hsum := sum_update he hrest
    dsimp only
    rw [Multiset.card_cons]
    omega
  | refused hrest hb =>
    have hsum := sum_update he hrest
    dsimp only
    omega

/-! Sources that give their items in the order in which they are due. -/

variable {τ : Type} [Preorder τ]

/-- Nothing still to come is due earlier than what came before it. -/
structure Timely (due : α → τ) (s : State ι α) : Prop where
  queue : ∀ x ∈ s.queue, ∀ b ∈ s.rest x.1, due x.2 ≤ due b
  rest : ∀ i, (s.rest i).Pairwise fun a b => due a ≤ due b

variable {due : α → τ}

lemma Timely.asks (hs : Timely due s) (h : Asks admits i s t) : Timely due t := by
  have htail {q : Multiset (ι × α)} {rest : ι → List α} {b : α} {r : List α}
      (hs : Timely due ⟨q, rest⟩) (hrest : rest i = b :: r) :
      Timely due ⟨q, Function.update rest i r⟩ := by
    refine ⟨fun x hx c hc => ?_, fun j => ?_⟩
    · by_cases hxi : x.1 = i
      · rw [hxi, show State.rest ⟨q, _⟩ i = r from Function.update_self ..] at hc
        refine hs.queue x hx c ?_
        rw [hxi, show State.rest ⟨q, rest⟩ i = b :: r from hrest]
        exact List.mem_cons_of_mem b hc
      · rw [show State.rest ⟨q, _⟩ x.1 = rest x.1 from Function.update_of_ne hxi ..] at hc
        exact hs.queue x hx c hc
    · by_cases hji : j = i
      · subst hji
        rw [show State.rest ⟨q, _⟩ j = r from Function.update_self ..]
        have hj := hs.rest j
        rw [show State.rest ⟨q, rest⟩ j = b :: r from hrest] at hj
        exact (List.pairwise_cons.mp hj).2
      · rw [show State.rest ⟨q, _⟩ j = rest j from Function.update_of_ne hji ..]
        exact hs.rest j
  cases h with
  | spent => exact hs
  | refused hrest => exact htail hs hrest
  | @admitted q rest b r hrest hb =>
    obtain ⟨hqueue, hpair⟩ := htail hs hrest
    refine ⟨fun x hx c hc => ?_, hpair⟩
    rcases Multiset.mem_cons.mp hx with rfl | hx
    · rw [show State.rest ⟨_, _⟩ i = r from Function.update_self ..] at hc
      have hi := hs.rest i
      rw [show State.rest ⟨q, rest⟩ i = b :: r from hrest] at hi
      exact (List.pairwise_cons.mp hi).1 c hc
    · exact hqueue x hx c hc

lemma Timely.step {e : ι × α} (hs : Timely due s) (h : Step admits s e t) : Timely due t := by
  obtain @⟨q, rest, _, _, hask⟩ := h
  have hq : Timely due (⟨q, rest⟩ : State ι α) :=
    ⟨fun x hx => hs.queue x (Multiset.mem_cons_of_mem hx), hs.rest⟩
  exact hq.asks hask

end Sources

end EventLoop
