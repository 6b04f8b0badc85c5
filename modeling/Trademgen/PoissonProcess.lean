import Trademgen.DemandStruct
import Trademgen.DemandStreamSpec

/-!
The Poisson generator: what a visit does, and where the walk over the knots ends.

The walk starts at the last of the leading knots of no probability and stops at `-1`. It gets
there when `-1` is a knot that the probabilities rise to; nothing else makes every call return.
-/

set_option linter.unusedSectionVars false

namespace Trademgen

open Faulting OrderedMap Knots

variable {K : Type} [Field K] [LinearOrder K] [IsStrictOrderedRing K] [FloorRing K]

/-! ### The start of the walk -/

namespace ContinuousAttributeLite

/-- The knot a walk starts at. -/
def startKnot (a : ContinuousAttributeLite K K) : ℕ := firstAbove 0 a.cumulativeDistribution - 1

/-- The walk is led to the knot `k`: it is `-1`, and the probabilities rise up to it. -/
structure Leads (a : ContinuousAttributeLite K K) (k : ℕ) : Prop where
  lt : k < a.size
  last : a.v k = -1
  start : a.startKnot ≤ k
  rising : ∀ i, a.startKnot ≤ i → i < k → a.c i < a.c (i + 1)

variable {a : ContinuousAttributeLite K K}

lemma startKnot_lt (h : 0 < a.size) : a.startKnot < a.size := by
  have hle := a.firstAbove_c_le_size 0
  unfold startKnot
  omega

/-- A positive probability ends the leading knots of none. -/
lemma startKnot_le {k : ℕ} (h : 0 < a.c k) : a.startKnot ≤ k - 1 := by
  have hle := a.firstAbove_c_le h
  unfold startKnot
  omega

/-- The lower bound of a pattern of no negative probability is a knot. -/
lemma getValue_zero (h : 0 < a.size) (hc : ∀ i < a.size, 0 ≤ a.c i) :
    a.getValue 0 = .ok (a.v a.startKnot) := by
  have hle := a.firstAbove_c_le_size 0
  unfold startKnot
  cases hidx : firstAbove 0 a.cumulativeDistribution with
  | zero => exact a.getValue_first h hidx
  | succ i =>
    rcases Nat.lt_or_ge (i + 1) a.size with hlt | hge
    · have hi : a.c i = 0 := le_antisymm (a.c_le_of_lt (by omega)) (hc i (by omega))
      rw [a.getValue_between hlt hidx, hi]
      simp
    · have heq : firstAbove 0 a.cumulativeDistribution = a.size := by omega
      rw [a.getValue_last h heq, show i + 1 = a.size by omega]

/-- The number of knots after a position, up to `-1`. -/
def knotsAhead (a : ContinuousAttributeLite K K) (x : K) : ℕ :=
  ((Finset.range a.size).filter fun j => x < a.v j ∧ a.v j ≤ -1).card

lemma knotsAhead_lt {x : K} {j : ℕ} (hj : j < a.size) (hx : x < a.v j) (h1 : a.v j ≤ -1) :
    a.knotsAhead (a.v j) < a.knotsAhead x := by
  refine Finset.card_lt_card (Finset.ssubset_iff_of_subset ?_ |>.mpr ⟨j, ?_, ?_⟩)
  · intro i hi
    rw [Finset.mem_filter] at hi ⊢
    exact ⟨hi.1, hx.trans hi.2.1, hi.2.2⟩
  · exact Finset.mem_filter.mpr ⟨Finset.mem_range.mpr hj, hx, h1⟩
  · simp

/-- A position of the walk lies in one of the rising intervals, or at the end. -/
lemma Leads.exists_interval {k : ℕ} (hl : a.Leads k) {x : K} (h0 : a.v a.startKnot ≤ x)
    (h1 : x < -1) :
    ∃ i, i + 1 < a.size ∧ a.v i ≤ x ∧ x < a.v (i + 1) ∧ a.v (i + 1) ≤ -1 ∧
      a.c i < a.c (i + 1) := by
  have hk := hl.lt
  have hs := hl.start
  obtain ⟨i, hi, hxi, hxi'⟩ := Knots.exists_interval (v := a.v) (n := k)
    ((a.v_le (Nat.zero_le _) (by omega)).trans h0) (by rw [hl.last]; exact h1)
  have hsi : a.startKnot ≤ i := by
    by_contra hc
    exact absurd (h0.trans_lt hxi') (not_lt.mpr (a.v_le (by omega) (by omega)))
  have hle : a.v (i + 1) ≤ -1 := by
    rw [← hl.last]
    exact a.v_le (by omega) hk
  exact ⟨i, by omega, hxi, hxi', hle, hl.rising i hsi hi⟩

end ContinuousAttributeLite

namespace DemandStream

variable {G : Type} [Libm K] [RandomGeneration K G]

/-! ### One visit -/

/-- The date-time returned at the end of the walk: one day and a millisecond after departure. -/
def terminator (s : DemandStream K G) : DateTime :=
  s.departureDateTime + convertFloatIntoDuration (1 : K)

/-- The stream once the walk reached `-1`. -/
def stopped (s : DemandStream K G) : DemandStream K G :=
  { s.at_ (-1) with stillHavingRequests := false }

/-- The exponential variate of a rate. -/
def exponentialOf (s : DemandStream K G) (r : K) : K :=
  (RandomGeneration.exponential r s.requestDateTimeRandomGenerator).1

/-- The stream after an exponential draw of a rate, at a position. -/
def drawn (s : DemandStream K G) (r x : K) : DemandStream K G :=
  { s.at_ x with requestDateTimeRandomGenerator :=
    (RandomGeneration.exponential r s.requestDateTimeRandomGenerator).2 }

/-- The stream after a request is accepted at a position. -/
def accepted (s : DemandStream K G) (r x : K) : DemandStream K G :=
  { s.drawn r x with randomGenerationContext :=
    s.randomGenerationContext.incrementGeneratedRequestsCounter }

lemma position_drawn (s : DemandStream K G) (r x : K) : (s.drawn r x).position = .ok x := rfl
lemma position_accepted (s : DemandStream K G) (r x : K) : (s.accepted r x).position = .ok x := rfl
lemma position_stopped (s : DemandStream K G) : s.stopped.position = .ok (-1) := rfl

variable {s : DemandStream K G} {x : K} {i : ℕ}

lemma visit_stop (hp : s.position = .ok (-1)) :
    visitPoissonProcess s = .ok (.stop s.terminator) s.stopped := by
  rw [visitPoissonProcess_eq, hp]
  simp only [walk, at_, if_true]
  rfl

/-- The rate of the interval that starts at a knot. -/
def rateOf (s : DemandStream K G) (i : ℕ) : K :=
  slopeOf s.demandCharacteristics.arrivalPattern.v s.demandCharacteristics.arrivalPattern.c i
    * s.demandDistribution.meanNumberOfRequests

/-- **A visit inside an interval**: the rate is that of the interval; the request is accepted if
it falls before the end of the interval, else the walk goes on from there. -/
lemma visit_inside (hp : s.position = .ok x)
    (hi : i + 1 < s.demandCharacteristics.arrivalPattern.size)
    (h0 : s.demandCharacteristics.arrivalPattern.v i ≤ x)
    (h1 : x < s.demandCharacteristics.arrivalPattern.v (i + 1)) (hx : x ≠ -1) :
    visitPoissonProcess s =
      if 0 < s.rateOf i then
        if x + s.exponentialOf (s.rateOf i) < s.demandCharacteristics.arrivalPattern.v (i + 1) then
          .ok (.accept (s.departureDateTime
              + convertFloatIntoDuration (x + s.exponentialOf (s.rateOf i))) (s.rateOf i) x
              (x + s.exponentialOf (s.rateOf i)))
            (s.accepted (s.rateOf i) (x + s.exponentialOf (s.rateOf i)))
        else .ok (.cross (s.rateOf i) x (s.demandCharacteristics.arrivalPattern.v (i + 1)))
          (s.drawn (s.rateOf i) (s.demandCharacteristics.arrivalPattern.v (i + 1)))
      else .error .nonPositiveRate (s.at_ x) := by
  have hb := s.demandCharacteristics.arrivalPattern.getUpperBound_eq hi h0 h1
  have hq := s.demandCharacteristics.arrivalPattern.getDerivativeValue_eq hi h0 h1
  rw [visitPoissonProcess_eq, hp]
  simp only [walk, at_, hx, if_false, hb, hq]
  rfl

lemma visit_cross (hp : s.position = .ok x)
    (hi : i + 1 < s.demandCharacteristics.arrivalPattern.size)
    (h0 : s.demandCharacteristics.arrivalPattern.v i ≤ x)
    (h1 : x < s.demandCharacteristics.arrivalPattern.v (i + 1)) (hx : x ≠ -1)
    (hr : 0 < s.rateOf i)
    (hlarge : s.demandCharacteristics.arrivalPattern.v (i + 1)
      ≤ x + s.exponentialOf (s.rateOf i)) :
    visitPoissonProcess s =
      .ok (.cross (s.rateOf i) x (s.demandCharacteristics.arrivalPattern.v (i + 1)))
        (s.drawn (s.rateOf i) (s.demandCharacteristics.arrivalPattern.v (i + 1))) := by
  rw [visit_inside hp hi h0 h1 hx, if_pos hr, if_neg (not_lt.mpr hlarge)]

lemma visit_accept (hp : s.position = .ok x)
    (hi : i + 1 < s.demandCharacteristics.arrivalPattern.size)
    (h0 : s.demandCharacteristics.arrivalPattern.v i ≤ x)
    (h1 : x < s.demandCharacteristics.arrivalPattern.v (i + 1)) (hx : x ≠ -1)
    (hr : 0 < s.rateOf i)
    (hsmall : x + s.exponentialOf (s.rateOf i)
      < s.demandCharacteristics.arrivalPattern.v (i + 1)) :
    visitPoissonProcess s =
      .ok (.accept (s.departureDateTime
          + convertFloatIntoDuration (x + s.exponentialOf (s.rateOf i))) (s.rateOf i) x
          (x + s.exponentialOf (s.rateOf i)))
        (s.accepted (s.rateOf i) (x + s.exponentialOf (s.rateOf i))) := by
  rw [visit_inside hp hi h0 h1 hx, if_pos hr, if_pos hsmall]

/-- Past the last knot an assertion fails. -/
lemma visit_last (hp : s.position = .ok x) (hx : x ≠ -1)
    (h : ∀ i < s.demandCharacteristics.arrivalPattern.size,
      s.demandCharacteristics.arrivalPattern.v i ≤ x) :
    visitPoissonProcess s = .error .assertion (s.at_ x) := by
  have hb := s.demandCharacteristics.arrivalPattern.getUpperBound_last h
  rw [visitPoissonProcess_eq, hp]
  simp only [walk, at_, hx, if_false, hb]

/-! ### A call -/

/-- A call that returns: its visits, the date-time and the stream it leaves. -/
inductive Call : DemandStream K G → List (Visit K) → DateTime → DemandStream K G → Prop
  | stop {s s' t} : visitPoissonProcess s = .ok (.stop t) s' → Call s [.stop t] t s'
  | accept {s s' t r x y} : visitPoissonProcess s = .ok (.accept t r x y) s' →
      Call s [.accept t r x y] t s'
  | cross {s s' s'' r x y vs t} : visitPoissonProcess s = .ok (.cross r x y) s' →
      Call s' vs t s'' → Call s (.cross r x y :: vs) t s''

/-- The recursion returns when its visits make up a call. -/
lemma poissonProcess_eq_ok {n : ℕ} {t : DateTime} {s s' : DemandStream K G} :
    poissonProcess n s = .ok t s' ↔ ∃ vs, Call s vs t s' ∧ vs.length ≤ n := by
  refine ⟨fun h => ?_, ?_⟩
  · induction n generalizing s with
    | zero => cases h
    | succ n ih =>
      rw [poissonProcess_succ] at h
      cases hv : visitPoissonProcess s with
      | error e s₁ =>
        rw [hv] at h
        cases h
      | ok v s₁ =>
        rw [hv] at h
        cases v with
        | stop t =>
          cases h
          exact ⟨_, .stop hv, by simp⟩
        | accept t r x y =>
          cases h
          exact ⟨_, .accept hv, by simp⟩
        | cross r x y =>
          obtain ⟨vs, hvs, hlen⟩ := ih h
          exact ⟨_, .cross hv hvs, by simpa using hlen⟩
  · rintro ⟨vs, hvs, hlen⟩
    induction hvs generalizing n with
    | stop hv =>
      obtain ⟨n, rfl⟩ := Nat.exists_eq_add_of_le' hlen
      rw [List.length_singleton, poissonProcess_succ, hv]
    | accept hv =>
      obtain ⟨n, rfl⟩ := Nat.exists_eq_add_of_le' hlen
      rw [List.length_singleton, poissonProcess_succ, hv]
    | cross hv _ ih =>
      rw [List.length_cons] at hlen
      obtain ⟨m, rfl⟩ : ∃ m, n = m + 1 := ⟨n - 1, by omega⟩
      rw [poissonProcess_succ, hv]
      exact ih (by omega)

/-- The rate that a visit takes from the derivative of the pattern. -/
def rateFrom (s : DemandStream K G) (q : K) : K := q * s.demandDistribution.meanNumberOfRequests

/-- What a visit that returns did: it stopped at `-1`, or it drew a variate of a positive rate and
either accepted an offset before the next knot or crossed to it. -/
inductive Visited (s : DemandStream K G) (x : K) : Visit K → DemandStream K G → Prop
  | stop (hx : x = -1) : Visited s x (.stop s.terminator) s.stopped
  | accept {b q : K} (hx : x ≠ -1)
      (hb : s.demandCharacteristics.arrivalPattern.getUpperBound x = .ok b)
      (hq : s.demandCharacteristics.arrivalPattern.getDerivativeValue x = .ok q)
      (hr : 0 < s.rateFrom q) (h : x + s.exponentialOf (s.rateFrom q) < b) :
      Visited s x
        (.accept (s.departureDateTime
            + convertFloatIntoDuration (x + s.exponentialOf (s.rateFrom q))) (s.rateFrom q) x
          (x + s.exponentialOf (s.rateFrom q)))
        (s.accepted (s.rateFrom q) (x + s.exponentialOf (s.rateFrom q)))
  | cross {b q : K} (hx : x ≠ -1)
      (hb : s.demandCharacteristics.arrivalPattern.getUpperBound x = .ok b)
      (hq : s.demandCharacteristics.arrivalPattern.getDerivativeValue x = .ok q)
      (hr : 0 < s.rateFrom q) (h : b ≤ x + s.exponentialOf (s.rateFrom q)) :
      Visited s x (.cross (s.rateFrom q) x b) (s.drawn (s.rateFrom q) b)

lemma visit_cases {v : Visit K} {s' : DemandStream K G}
    (h : visitPoissonProcess s = .ok v s') : ∃ x, s.position = .ok x ∧ Visited s x v s' := by
  rw [visitPoissonProcess_eq] at h
  cases hp : s.position with
  | error e =>
    rw [hp] at h
    cases h
  | ok z =>
    rw [hp] at h
    refine ⟨z, rfl, ?_⟩
    by_cases h1 : z = -1
    · simp only [walk, at_, h1, if_true] at h
      cases h
      exact .stop h1
    cases hb : s.demandCharacteristics.arrivalPattern.getUpperBound z with
    | error e =>
      simp only [walk, at_, h1, if_false, hb] at h
      cases h
    | ok b =>
      cases hq : s.demandCharacteristics.arrivalPattern.getDerivativeValue z with
      | error e =>
        simp only [walk, at_, h1, if_false, hb, hq] at h
        cases h
      | ok q =>
        by_cases h2 : 0 < s.rateFrom q
        · by_cases h3 : z + s.exponentialOf (s.rateFrom q) < b
          · have hv := Visited.accept h1 hb hq h2 h3
            unfold exponentialOf rateFrom at h3
            unfold rateFrom at h2
            simp only [walk, at_, h1, if_false, hb, hq, h2, h3, if_true] at h
            cases h
            exact hv
          · have hv := Visited.cross h1 hb hq h2 (not_lt.mp h3)
            unfold exponentialOf rateFrom at h3
            unfold rateFrom at h2
            simp only [walk, at_, h1, if_false, hb, hq, h2, h3, if_true] at h
            cases h
            exact hv
        · unfold rateFrom at h2
          simp only [walk, at_, h1, if_false, hb, hq, h2] at h
          cases h

lemma Call.exists_position {s s' : DemandStream K G} {vs : List (Visit K)} {t : DateTime}
    (hcall : Call s vs t s') : ∃ x, s.position = .ok x := by
  cases hcall with
  | stop hv => exact (visit_cases hv).imp fun _ h => h.1
  | accept hv => exact (visit_cases hv).imp fun _ h => h.1
  | cross hv _ => exact (visit_cases hv).imp fun _ h => h.1

/-- A crossing ends at a knot above. -/
lemma cross_knot {r x y : K} {s' : DemandStream K G}
    (h : visitPoissonProcess s = .ok (.cross r x y) s') :
    s.position = .ok x ∧ s'.position = .ok y ∧
      s'.demandCharacteristics = s.demandCharacteristics ∧
      ∃ j < s.demandCharacteristics.arrivalPattern.size,
        s.demandCharacteristics.arrivalPattern.v j = y ∧ x < y := by
  obtain ⟨z, hp, hv⟩ := visit_cases h
  cases hv with
  | cross hx hb hq hr h =>
    obtain ⟨j, hj, hjb, hzj⟩ :=
      s.demandCharacteristics.arrivalPattern.exists_knot_of_getUpperBound hb
    exact ⟨hp, rfl, rfl, j, hj, hjb, hjb ▸ hzj⟩

/-- The number of knots after a position. -/
def knotsAbove (a : ContinuousAttributeLite K K) (x : K) : ℕ :=
  ((Finset.range a.size).filter fun j => x < a.v j).card

/-- **No call recurses for ever**: every recursive call starts at a later knot. -/
lemma Call.length_le {vs : List (Visit K)} {t : DateTime} {s s' : DemandStream K G}
    (h : Call s vs t s') :
    vs.length ≤ s.demandCharacteristics.arrivalPattern.size + 1 := by
  have hmain : ∀ x, s.position = .ok x →
      vs.length ≤ knotsAbove s.demandCharacteristics.arrivalPattern x + 1 := by
    induction h with
    | stop => simp
    | accept => simp
    | cross hv _ ih =>
      intro x hx
      obtain ⟨hp, hp', hd, j, hj, hjy, hxy⟩ := cross_knot hv
      rw [hp] at hx
      cases hx
      have hlen := ih _ hp'
      rw [hd] at hlen
      refine Nat.succ_le_succ (hlen.trans (Finset.card_lt_card ?_))
      refine (Finset.ssubset_iff_of_subset ?_).mpr ⟨j, ?_, ?_⟩
      · intro i hi
        rw [Finset.mem_filter] at hi ⊢
        exact ⟨hi.1, hxy.trans hi.2⟩
      · exact Finset.mem_filter.mpr ⟨Finset.mem_range.mpr hj, hjy ▸ hxy⟩
      · simp [hjy]
  have hcard (a : ContinuousAttributeLite K K) (x : K) : knotsAbove a x ≤ a.size := by
    have := Finset.card_filter_le (Finset.range a.size) fun j => x < a.v j
    rwa [Finset.card_range] at this
  cases hp : s.position with
  | ok x => exact (hmain x hp).trans (Nat.succ_le_succ (hcard _ _))
  | error e =>
    have herr : visitPoissonProcess s = .error e s := by
      rw [visitPoissonProcess_eq, hp]
    cases h with
    | stop hv => rw [herr] at hv; cases hv
    | accept hv => rw [herr] at hv; cases hv
    | cross hv _ => rw [herr] at hv; cases hv

/-- The generator returns when its visits make up a call. -/
lemma generateTimeOfRequestPoissonProcess_eq_ok {t : DateTime} {s s' : DemandStream K G} :
    generateTimeOfRequestPoissonProcess s = .ok t s' ↔ ∃ vs, Call s vs t s' := by
  unfold generateTimeOfRequestPoissonProcess
  rw [get_bind, poissonProcess_eq_ok]
  exact ⟨fun ⟨vs, h, _⟩ => ⟨vs, h⟩, fun ⟨vs, h⟩ => ⟨vs, h, h.length_le⟩⟩

lemma Call.generateTimeOfRequest {s s' : DemandStream K G} {vs : List (Visit K)} {t : DateTime}
    (h : Call s vs t s') : DemandStream.generateTimeOfRequest .POI_PRO s = .ok t s' :=
  generateTimeOfRequestPoissonProcess_eq_ok.mpr ⟨vs, h⟩

lemma Call.sameBase {s s' : DemandStream K G} {vs : List (Visit K)} {t : DateTime}
    (h : Call s vs t s') : SameBase s s' := by
  have hbase := sameBase_time .POI_PRO s
  rwa [h.generateTimeOfRequest, stateOf_ok] at hbase

/-! ### Calls on a leading pattern -/

/-- A walk on a leading pattern has a position on the way to `-1`. -/
structure OnWay (k : ℕ) (s : DemandStream K G) : Prop where
  leads : s.demandCharacteristics.arrivalPattern.Leads k
  mean_pos : 0 < s.demandDistribution.meanNumberOfRequests
  position : ∃ x, s.position = .ok x ∧
    s.demandCharacteristics.arrivalPattern.v s.demandCharacteristics.arrivalPattern.startKnot ≤ x ∧
    x ≤ -1

/-- What a visit from a position does on the way: it stops at `-1`, or it walks inside one
interval, at its rate. -/
inductive Inside (s : DemandStream K G) (x : K) : Visit K → DemandStream K G → Prop
  | stop (hx : x = -1) : Inside s x (.stop s.terminator) s.stopped
  | accept {i : ℕ} {y : K} (hi : i + 1 < s.demandCharacteristics.arrivalPattern.size)
      (h0 : s.demandCharacteristics.arrivalPattern.v i ≤ x) (hxy : x ≤ y)
      (hy : y = x + s.exponentialOf (s.rateOf i))
      (h1 : y < s.demandCharacteristics.arrivalPattern.v (i + 1))
      (hle : s.demandCharacteristics.arrivalPattern.v (i + 1) ≤ -1) :
      Inside s x (.accept (s.departureDateTime + convertFloatIntoDuration y) (s.rateOf i) x y)
        (s.accepted (s.rateOf i) y)
  | cross {i : ℕ} (hi : i + 1 < s.demandCharacteristics.arrivalPattern.size)
      (h0 : s.demandCharacteristics.arrivalPattern.v i ≤ x)
      (h1 : x < s.demandCharacteristics.arrivalPattern.v (i + 1))
      (hle : s.demandCharacteristics.arrivalPattern.v (i + 1) ≤ -1) :
      Inside s x (.cross (s.rateOf i) x (s.demandCharacteristics.arrivalPattern.v (i + 1)))
        (s.drawn (s.rateOf i) (s.demandCharacteristics.arrivalPattern.v (i + 1)))

/-- **A visit on the way** returns, and stays on the way. -/
theorem OnWay.visit (he : ExponentialLaw K G) {k : ℕ} {s : DemandStream K G} (h : OnWay k s) {x : K}
    (hx : s.position = .ok x) :
    ∃ w s', visitPoissonProcess s = .ok w s' ∧ Inside s x w s' ∧ OnWay k s' := by
  obtain ⟨x', hx', h0, h1⟩ := h.position
  rw [hx] at hx'
  cases hx'
  rcases h1.eq_or_lt with rfl | h1
  · exact ⟨_, _, visit_stop hx, .stop rfl, h.leads, h.mean_pos, _, position_stopped s, h0, le_rfl⟩
  · obtain ⟨i, hi, hxi, hxi', hle, hc⟩ := h.leads.exists_interval h0 h1
    have hr : 0 < s.rateOf i := mul_pos (slopeOf_pos (hxi.trans_lt hxi') hc) h.mean_pos
    have hex : 0 ≤ s.exponentialOf (s.rateOf i) := he _ _ hr
    have hv := visit_inside hx hi hxi hxi' h1.ne
    rw [if_pos hr] at hv
    split_ifs at hv with hacc
    · have hxy : x ≤ x + s.exponentialOf (s.rateOf i) := le_add_of_nonneg_right hex
      exact ⟨_, _, hv, .accept hi hxi hxy rfl hacc hle, h.leads, h.mean_pos, _,
        position_accepted s _ _, h0.trans hxy, (hacc.trans_le hle).le⟩
    · exact ⟨_, _, hv, .cross hi hxi hxi' hle, h.leads, h.mean_pos, _, position_drawn s _ _,
        h0.trans hxi'.le, hle⟩

lemma OnWay.inside (he : ExponentialLaw K G) {k : ℕ} {s s' : DemandStream K G} (h : OnWay k s)
    {x : K} (hx : s.position = .ok x) {w : Visit K} (hv : visitPoissonProcess s = .ok w s') :
    Inside s x w s' ∧ OnWay k s' := by
  obtain ⟨w', s'', hv', hin, hway⟩ := h.visit he hx
  rw [hv] at hv'
  cases hv'
  exact ⟨hin, hway⟩

/-- A call on the way returns, and crosses each knot ahead at most once. -/
lemma OnWay.exists_call (he : ExponentialLaw K G) {k : ℕ} {s : DemandStream K G} (h : OnWay k s)
    {x : K} (hx : s.position = .ok x) :
    ∃ vs t s', Call s vs t s' ∧
      vs.length ≤ s.demandCharacteristics.arrivalPattern.knotsAhead x + 1 := by
  induction hm : s.demandCharacteristics.arrivalPattern.knotsAhead x using Nat.strong_induction_on
    generalizing s x with
  | _ m ih =>
    subst hm
    obtain ⟨w, s', hv, hin, hway⟩ := h.visit he hx
    cases hin with
    | stop _ => exact ⟨_, _, _, .stop hv, by simp⟩
    | accept _ _ _ _ _ _ => exact ⟨_, _, _, .accept hv, by simp⟩
    | cross hi h0 h1 hle =>
      have hlt := ContinuousAttributeLite.knotsAhead_lt hi h1 hle
      obtain ⟨vs, t, s', hcall, hlen⟩ := ih _ hlt hway (position_drawn s _ _) rfl
      refine ⟨_, t, s', .cross hv hcall, ?_⟩
      rw [List.length_cons]
      exact Nat.succ_le_succ (hlen.trans hlt)

/-- The offset that a visit accepts. -/
def Visit.offset : Visit K → Option K
  | .stop _ => none
  | .accept _ _ _ y => some y
  | .cross _ _ _ => none

/-- The visit reached the end of the walk. -/
def Visit.isStop : Visit K → Bool
  | .stop _ => true
  | .accept _ _ _ _ => false
  | .cross _ _ _ => false

/-- What a call leaves: the stream stopped, or one request accepted further on. -/
inductive Outcome (s : DemandStream K G) (x : K) (vs : List (Visit K)) (s' : DemandStream K G) :
    DateTime → Prop
  | stopped (offsets : vs.filterMap Visit.offset = []) (stop : vs.any Visit.isStop = true)
      (still : s'.stillHavingRequests = false) (position : s'.position = .ok (-1))
      (context : s'.randomGenerationContext = s.randomGenerationContext) :
      Outcome s x vs s' s.terminator
  | accepted (y : K) (offsets : vs.filterMap Visit.offset = [y])
      (stop : vs.any Visit.isStop = false) (le : x ≤ y) (lt : y < -1)
      (still : s'.stillHavingRequests = s.stillHavingRequests) (position : s'.position = .ok y)
      (context : s'.randomGenerationContext =
        s.randomGenerationContext.incrementGeneratedRequestsCounter) :
      Outcome s x vs s' (s.departureDateTime + convertFloatIntoDuration y)

/-- **A call on the way** stops the stream or accepts one request further on. -/
theorem OnWay.outcome (he : ExponentialLaw K G) {k : ℕ} {s s' : DemandStream K G} (h : OnWay k s)
    {x : K} (hx : s.position = .ok x) {vs : List (Visit K)} {t : DateTime}
    (hcall : Call s vs t s') :
    Outcome s x vs s' t ∧ OnWay k s' := by
  induction hcall generalizing x with
  | stop hv =>
    obtain ⟨hin, hway⟩ := h.inside he hx hv
    cases hin
    exact ⟨.stopped rfl rfl rfl (position_stopped _) rfl, hway⟩
  | accept hv =>
    obtain ⟨hin, hway⟩ := h.inside he hx hv
    cases hin with
    | accept hi h0 hxy hy h1 hle =>
      exact ⟨.accepted _ rfl rfl hxy (h1.trans_le hle) rfl (position_accepted _ _ _) rfl, hway⟩
  | cross hv _ ih =>
    obtain ⟨hin, hway⟩ := h.inside he hx hv
    cases hin with
    | cross hi h0 h1 hle =>
      obtain ⟨hout, hway'⟩ := ih hway (position_drawn _ _ _)
      refine ⟨?_, hway'⟩
      cases hout with
      | stopped ho hs h2 h3 h4 => exact .stopped ho hs h2 h3 h4
      | accepted y ho hs h2 h3 h4 h5 h6 => exact .accepted y ho hs (h1.le.trans h2) h3 h4 h5 h6

/-- **Every rate** of a call on the way is that of the interval the visit stays in. -/
lemma OnWay.interval (he : ExponentialLaw K G) {k : ℕ} {s s' : DemandStream K G} (h : OnWay k s)
    {x : K} (hx : s.position = .ok x) {vs : List (Visit K)} {t : DateTime} (hcall : Call s vs t s')
    {t' : DateTime} {r x' y : K} (hmem : .accept t' r x' y ∈ vs) :
    ∃ i, i + 1 < s.demandCharacteristics.arrivalPattern.size ∧
      s.demandCharacteristics.arrivalPattern.v i ≤ x' ∧ x' ≤ y ∧
      y < s.demandCharacteristics.arrivalPattern.v (i + 1) ∧ r = s.rateOf i := by
  induction hcall generalizing x with
  | stop hv => simp at hmem
  | accept hv =>
    obtain ⟨hin, -⟩ := h.inside he hx hv
    cases List.mem_singleton.mp hmem
    cases hin with
    | accept hi h0 hxy _ h1 _ => exact ⟨_, hi, h0, hxy, h1, rfl⟩
  | cross hv _ ih =>
    obtain ⟨hin, hway⟩ := h.inside he hx hv
    cases hin with
    | cross hi h0 h1 hle =>
      rcases List.mem_cons.mp hmem with heq | hmem
      · cases heq
      · exact ih hway (position_drawn _ _ _) hmem

/-- Past `-1` no visit stops: a call that returns accepts an offset there. -/
lemma Call.past (he : ExponentialLaw K G) {s s' : DemandStream K G} {vs : List (Visit K)}
    {t : DateTime} (hcall : Call s vs t s') {x : K} (hx : s.position = .ok x) (h1 : -1 < x) :
    ∃ y, vs.filterMap Visit.offset = [y] ∧ -1 < y := by
  induction hcall generalizing x with
  | stop hv =>
    obtain ⟨z, hz, hin⟩ := visit_cases hv
    rw [hx] at hz
    cases hz
    cases hin with
    | stop heq => exact absurd heq h1.ne'
  | accept hv =>
    obtain ⟨z, hz, hin⟩ := visit_cases hv
    rw [hx] at hz
    cases hz
    cases hin with
    | accept hx hb hq hr h => exact ⟨_, rfl, h1.trans_le (le_add_of_nonneg_right (he _ _ hr))⟩
  | cross hv _ ih =>
    obtain ⟨hp, hp', -, j, -, -, hlt⟩ := cross_knot hv
    rw [hx] at hp
    cases hp
    obtain ⟨y, hy, h2⟩ := ih hp' (h1.trans hlt)
    exact ⟨y, hy, h2⟩

/-! ### Every reachable state -/

lemma position_statisticsOrder (s : DemandStream K G) :
    (stateOf (generateTimeOfRequestStatisticsOrder s)).position = s.position := by
  rw [generateTimeOfRequestStatisticsOrder_eq]
  split_ifs
  · cases s.demandCharacteristics.arrivalPattern.getValue s.nextProbability with
    | ok d => rfl
    | error e => rfl
  · rfl

lemma OnWay.of_sameBase {k : ℕ} {s s' : DemandStream K G} (h : OnWay k s) (ht : SameBase s s')
    (hp : s'.position = s.position) : OnWay k s' := by
  obtain ⟨x, hx, h0, h1⟩ := h.position
  have hc := ht.characteristics
  have hd := ht.distribution
  refine ⟨?_, ?_, x, by rw [hp, hx], ?_, h1⟩
  · rw [hc]
    exact h.leads
  · rw [hd]
    exact h.mean_pos
  · rw [hc]
    exact h0

/-- A draw of a time, also one that fails, leaves the walk on its way. -/
lemma OnWay.time (he : ExponentialLaw K G) {k : ℕ} {s : DemandStream K G} (h : OnWay k s)
    (m : DemandGenerationMethod) : OnWay k (stateOf (generateTimeOfRequest m s)) := by
  cases m with
  | STA_ORD =>
    exact h.of_sameBase (sameBase_time .STA_ORD s) (position_statisticsOrder s)
  | POI_PRO =>
    obtain ⟨x, hx, -, -⟩ := h.position
    obtain ⟨vs, t, s', hcall, -⟩ := h.exists_call he hx
    obtain ⟨-, hway⟩ := h.outcome he hx hcall
    rw [hcall.generateTimeOfRequest, stateOf_ok]
    exact hway

lemma OnWay.next (he : ExponentialLaw K G) {k : ℕ} {s : DemandStream K G} (h : OnWay k s) (g : G)
    (m : DemandGenerationMethod) : OnWay k (stateOf (generateNextRequest g m s)) :=
  generateNextRequest_preserves h (h.time he m)
    (fun _ _ h₁ => ⟨h₁.leads, h₁.mean_pos, h₁.position⟩) g

lemma position_first {s : DemandStream K G} (hf : s.firstDateTimeRequest = true) :
    s.position = s.demandCharacteristics.arrivalPattern.getValue 0 := by
  unfold position
  rw [hf, if_pos rfl]

/-- A stream whose walk is still to start is on its way. -/
lemma OnWay.of_first {k : ℕ} {s : DemandStream K G}
    (hl : s.demandCharacteristics.arrivalPattern.Leads k)
    (hc : ∀ i < s.demandCharacteristics.arrivalPattern.size,
      0 ≤ s.demandCharacteristics.arrivalPattern.c i)
    (hm : 0 < s.demandDistribution.meanNumberOfRequests) (hf : s.firstDateTimeRequest = true) :
    OnWay k s := by
  have hk := hl.lt
  refine ⟨hl, hm, _, (position_first hf).trans
    (ContinuousAttributeLite.getValue_zero (by omega) hc), le_rfl, ?_⟩
  rw [← hl.last]
  exact ContinuousAttributeLite.v_le _ hl.start hl.lt

/-- **Every reachable state** of a stream whose pattern leads to `-1` is on its way. -/
theorem Reachable.onWay (he : ExponentialLaw K G) {k : ℕ} {s : DemandStream K G} (h : Reachable s)
    (hl : s.demandCharacteristics.arrivalPattern.Leads k)
    (hc : ∀ i < s.demandCharacteristics.arrivalPattern.size,
      0 ≤ s.demandCharacteristics.arrivalPattern.c i)
    (hm : 0 < s.demandDistribution.meanNumberOfRequests) : OnWay k s := by
  induction h with
  | started hs => exact .of_first hl hc hm hs.fresh.first
  | first _ ih => exact .of_first hl hc hm rfl
  | @time s s' m t _ _ ht ih =>
    have hbase := sameBase_time m s
    rw [ht, stateOf_ok] at hbase
    rw [hbase.characteristics] at hl hc
    rw [hbase.distribution] at hm
    have hway := (ih hl hc hm).time he m
    rwa [ht, stateOf_ok] at hway
  | @next s s' m g r _ _ hr ih =>
    have hbase := sameBase_next g m s
    rw [hr, stateOf_ok] at hbase
    rw [hbase.characteristics] at hl hc
    rw [hbase.distribution] at hm
    have hway := (ih hl hc hm).next he g m
    rwa [hr, stateOf_ok] at hway
  | @thrown s s' m g e _ _ hr _ ih =>
    have hbase := sameBase_next g m s
    rw [hr, stateOf_error] at hbase
    rw [hbase.characteristics] at hl hc
    rw [hbase.distribution] at hm
    have hway := (ih hl hc hm).next he g m
    rwa [hr, stateOf_error] at hway

/-! ### Large variates -/

/-- At a knot, with a variate that passes the next one, a visit either stops or crosses an interval
of positive rate. -/
lemma visit_knot {s s' : DemandStream K G} {w : Visit K} {i : ℕ}
    (hi : i < s.demandCharacteristics.arrivalPattern.size)
    (hp : s.position = .ok (s.demandCharacteristics.arrivalPattern.v i))
    (hm : 0 < s.demandDistribution.meanNumberOfRequests)
    (hlarge : ∀ r, s.demandCharacteristics.arrivalPattern.v (i + 1)
      ≤ s.demandCharacteristics.arrivalPattern.v i + s.exponentialOf r)
    (h : visitPoissonProcess s = .ok w s') :
    s.demandCharacteristics.arrivalPattern.v i = -1 ∨
      i + 1 < s.demandCharacteristics.arrivalPattern.size ∧
        s.demandCharacteristics.arrivalPattern.c i
          < s.demandCharacteristics.arrivalPattern.c (i + 1) ∧
        ∃ r, w = .cross r (s.demandCharacteristics.arrivalPattern.v i)
            (s.demandCharacteristics.arrivalPattern.v (i + 1)) ∧
          s' = s.drawn r (s.demandCharacteristics.arrivalPattern.v (i + 1)) := by
  by_cases h1 : s.demandCharacteristics.arrivalPattern.v i = -1
  · exact Or.inl h1
  rcases Nat.lt_or_ge (i + 1) s.demandCharacteristics.arrivalPattern.size with hi' | hi'
  · have hv := s.demandCharacteristics.arrivalPattern.v_lt (Nat.lt_succ_self i) hi'
    by_cases hr : 0 < s.rateOf i
    · rw [visit_cross hp hi' le_rfl hv h1 hr (hlarge _)] at h
      cases h
      have hslope := (mul_pos_iff_of_pos_right hm).mp hr
      have hc : 0 < s.demandCharacteristics.arrivalPattern.c (i + 1)
          - s.demandCharacteristics.arrivalPattern.c i := by
        rw [← slopeOf_mul hv]
        exact mul_pos hslope (sub_pos.mpr hv)
      exact Or.inr ⟨hi', sub_pos.mp hc, _, rfl, rfl⟩
    · rw [visit_inside hp hi' le_rfl hv h1, if_neg hr] at h
      cases h
  · rw [visit_last hp h1 fun j hj =>
      s.demandCharacteristics.arrivalPattern.v_le (by omega) hi] at h
    cases h

/-- With variates that pass every knot, a call that returns walked over rising probabilities from
its knot to `-1`. -/
lemma Call.rising {B : K} (hB : 0 < B) {vs : List (Visit K)} {t : DateTime}
    {s s' : DemandStream K (Tape K)} (h : Call s vs t s')
    (hT : s.requestDateTimeRandomGenerator = Tape.const 0 B 0 (by simp) hB)
    (hm : 0 < s.demandDistribution.meanNumberOfRequests)
    (hlarge : ∀ i < s.demandCharacteristics.arrivalPattern.size,
      s.demandCharacteristics.arrivalPattern.v (i + 1)
        ≤ s.demandCharacteristics.arrivalPattern.v i + B) {i : ℕ}
    (hi : i < s.demandCharacteristics.arrivalPattern.size)
    (hp : s.position = .ok (s.demandCharacteristics.arrivalPattern.v i)) :
    ∃ k, i ≤ k ∧ k < s.demandCharacteristics.arrivalPattern.size ∧
      s.demandCharacteristics.arrivalPattern.v k = -1 ∧
      ∀ j, i ≤ j → j < k → s.demandCharacteristics.arrivalPattern.c j
        < s.demandCharacteristics.arrivalPattern.c (j + 1) := by
  have hexp {s : DemandStream K (Tape K)} {i : ℕ}
      (hT : s.requestDateTimeRandomGenerator = Tape.const 0 B 0 (by simp) hB)
      (hlarge : ∀ i < s.demandCharacteristics.arrivalPattern.size,
        s.demandCharacteristics.arrivalPattern.v (i + 1)
          ≤ s.demandCharacteristics.arrivalPattern.v i + B)
      (hi : i < s.demandCharacteristics.arrivalPattern.size) (r : K) :
      s.demandCharacteristics.arrivalPattern.v (i + 1)
        ≤ s.demandCharacteristics.arrivalPattern.v i + s.exponentialOf r := by
    unfold exponentialOf
    rw [hT]
    exact hlarge i hi
  induction h generalizing i with
  | stop hv =>
    rcases visit_knot hi hp hm (hexp hT hlarge hi) hv with h1 | ⟨-, -, r, hw, -⟩
    · exact ⟨i, le_rfl, hi, h1, by omega⟩
    · cases hw
  | accept hv =>
    rcases visit_knot hi hp hm (hexp hT hlarge hi) hv with h1 | ⟨-, -, r, hw, -⟩
    · exact ⟨i, le_rfl, hi, h1, by omega⟩
    · cases hw
  | cross hv _ ih =>
    rcases visit_knot hi hp hm (hexp hT hlarge hi) hv with h1 | ⟨hi', hc, r, hw, rfl⟩
    · exact ⟨i, le_rfl, hi, h1, by omega⟩
    · obtain ⟨k, hk, hk', h1, hrise⟩ := ih (by unfold drawn; rw [hT]; rfl) hm hlarge hi' rfl
      refine ⟨k, by omega, hk', h1, fun j hj hjk => ?_⟩
      rcases hj.eq_or_lt with rfl | hj
      · exact hc
      · exact hrise j hj hjk

end DemandStream

/-! ### Safety -/

section Real

open DemandStream

/-- The arrival pattern of a row, from its pairs of days to departure and probabilities. -/
noncomputable def rowPattern (d : DemandStruct ℝ) (pairs : List (ℕ × ℝ)) :
    ContinuousAttributeLite ℝ ℝ :=
  .init (d.storeDTDDist pairs).dtdProbDist

lemma rowPattern_eq {d : DemandStruct ℝ} (hd : d.dtdProbDist = OMap.empty)
    (pairs : List (ℕ × ℝ)) :
    rowPattern d pairs = .init (OMap.ofPairs (pairs.map fun p => (-(p.1 : ℝ), p.2))) := by
  unfold rowPattern
  rw [DemandStruct.storeDTDDist_dtdProbDist pairs hd]

lemma init_c_nonneg {l : List (ℝ × ℝ)} (h : ∀ p ∈ l, 0 ≤ p.2) (i : ℕ) :
    0 ≤ (ContinuousAttributeLite.init (OMap.ofPairs l)).c i := by
  unfold ContinuousAttributeLite.c
  rcases Nat.lt_or_ge i (OMap.ofPairs l).values.length with hi | hi
  · have hmem : (OMap.ofPairs l).values.getD i 0 ∈ (OMap.ofPairs l).values := by
      rw [List.getD_eq_getElem _ _ hi]
      exact List.getElem_mem hi
    obtain ⟨p, hp, heq⟩ := OMap.mem_ofPairs_values hmem
    exact heq ▸ h p hp
  · exact (List.getD_eq_default _ _ hi).ge

/-- A guarded call returns from every reachable state, whatever the exponential variates. -/
def Safe (a : ContinuousAttributeLite ℝ ℝ) : Prop :=
  ∀ (G : Type) (_ : RandomGeneration ℝ G), ExponentialLaw ℝ G → ∀ s : DemandStream ℝ G,
    Reachable s → s.demandCharacteristics.arrivalPattern = a →
    0 < s.demandDistribution.meanNumberOfRequests →
    s.stillHavingRequestsToBeGenerated .POI_PRO = true →
    ∃ t s', generateTimeOfRequestPoissonProcess s = .ok t s'

/-- **Safety**: on the patterns of the demand files, the Poisson generator is safe exactly when
`-1` is a knot, at or after the last of the leading knots of probability zero, and the
probabilities rise strictly from there to it. -/
theorem safe_iff_leads {d : DemandStruct ℝ} (hd : d.dtdProbDist = OMap.empty)
    {pairs : List (ℕ × ℝ)} (hne : pairs ≠ []) (hpos : ∀ p ∈ pairs, 0 ≤ p.2) :
    Safe (rowPattern d pairs) ↔ ∃ k, (rowPattern d pairs).Leads k := by
  rw [rowPattern_eq hd]
  set l := pairs.map fun p => (-(p.1 : ℝ), p.2) with hl
  set a := ContinuousAttributeLite.init (OMap.ofPairs l) with ha
  have hsize : 0 < a.size := List.length_pos_of_ne_nil (OMap.ofPairs_pairs_ne_nil (by simpa [hl]))
  have hc : ∀ i < a.size, 0 ≤ a.c i := by
    intro i _
    refine init_c_nonneg (fun p hp => ?_) i
    obtain ⟨q, hq, rfl⟩ := List.mem_map.mp hp
    exact hpos q hq
  refine ⟨fun hsafe => ?_, ?_⟩
  · have hspan {i : ℕ} (hi : i < a.size) : a.v 0 ≤ a.v i ∧ a.v i ≤ a.v (a.size - 1) :=
      ⟨a.v_le (by omega) hi, a.v_le (by omega) (by omega)⟩
    set B := a.v (a.size - 1) - a.v 0 + |a.v a.size - a.v 0| + 1 with hBdef
    have h0 := hspan hsize
    have habs := le_abs_self (a.v a.size - a.v 0)
    have hnn := abs_nonneg (a.v a.size - a.v 0)
    have hB : 0 < B := by linarith
    have hlarge (i : ℕ) (hi : i < a.size) : a.v (i + 1) ≤ a.v i + B := by
      have h1 := hspan hi
      rcases Nat.lt_or_ge (i + 1) a.size with h | h
      · have h2 := hspan h
        linarith
      · rw [show i + 1 = a.size by omega]
        linarith
    have hstart : (sampleStream l 0 0 1 (Tape.const 0 B 0 (by simp) hB)).position
        = .ok (a.v a.startKnot) :=
      (position_first rfl).trans (ContinuousAttributeLite.getValue_zero hsize hc)
    obtain ⟨t, s', hok⟩ := hsafe (Tape ℝ) inferInstance Tape.positiveExponentialLaw.nonneg
      (sampleStream l 0 0 1 (Tape.const 0 B 0 (by simp) hB)) (.started sampleStream_started) rfl
      one_pos rfl
    obtain ⟨vs, hcall⟩ := generateTimeOfRequestPoissonProcess_eq_ok.mp hok
    obtain ⟨k, hk, hk', h1, hrise⟩ := hcall.rising hB rfl one_pos hlarge
      (ContinuousAttributeLite.startKnot_lt hsize) hstart
    exact ⟨k, hk', h1, hk, hrise⟩
  · rintro ⟨k, hk⟩ G _ he s hs hpat hm -
    rw [← hpat] at hk hc
    have hway := hs.onWay he hk hc hm
    obtain ⟨x, hx, -, -⟩ := hway.position
    obtain ⟨vs, t, s', hcall, -⟩ := hway.exists_call he hx
    exact ⟨t, s', generateTimeOfRequestPoissonProcess_eq_ok.mpr ⟨vs, hcall⟩⟩

theorem safe_iff_leads_sample :
    Safe (rowPattern (DemandStruct.make ⟨0, 0⟩ ⟨[]⟩ "Y") [(30, 0), (1, 1)]) := by
  refine (safe_iff_leads rfl (by simp) (by simp)).mpr ⟨1, ?_⟩
  rw [rowPattern_eq rfl]
  norm_num
  obtain ⟨hsize, -, hv1, hc0, hc1⟩ :=
    ContinuousAttributeLite.init_pair (show (-30 : ℝ) < -1 by norm_num) 0 1
  refine ⟨by omega, hv1, ?_, fun i _ hi => ?_⟩
  · exact (ContinuousAttributeLite.startKnot_le (k := 1) (by rw [hc1]; norm_num)).trans
      (Nat.zero_le 1)
  · obtain rfl : i = 0 := by omega
    rw [hc0, hc1]
    norm_num

/-- Without a knot at `-1` the walk passes the last knot, and an assertion fails. -/
theorem unsafe_sample :
    (∃ s', generateTimeOfRequestPoissonProcess
        (sampleStream [((-30 : ℝ), (0 : ℝ)), (0, 1)] 0 0 1 (Tape.const 0 40 0 (by simp) (by simp)))
      = .error .assertion s') ∧
    ¬ Safe (rowPattern (DemandStruct.make ⟨0, 0⟩ ⟨[]⟩ "Y") [(30, 0), (0, 1)]) := by
  set s := sampleStream [((-30 : ℝ), (0 : ℝ)), (0, 1)] 0 0 1 (Tape.const 0 40 0 (by simp) (by simp))
    with hs
  set a := ContinuousAttributeLite.init (OMap.ofPairs [((-30 : ℝ), (0 : ℝ)), (0, 1)]) with ha
  obtain ⟨hsize, hv0, hv1, hc0, hc1⟩ :
      a.size = 2 ∧ a.v 0 = -30 ∧ a.v 1 = 0 ∧ a.c 0 = 0 ∧ a.c 1 = 1 :=
    ContinuousAttributeLite.init_pair (by norm_num) 0 1
  have hp : s.position = .ok (a.v 0) := by
    have hstart : a.startKnot = 0 := Nat.le_zero.mp
      (ContinuousAttributeLite.startKnot_le (k := 1) (by rw [hc1]; norm_num))
    rw [position_first rfl, ← hstart]
    have h2 : 0 < a.size := by omega
    exact ContinuousAttributeLite.getValue_zero h2 fun i _ => init_c_nonneg (by simp) i
  have hr : s.rateOf 0 = 1 / 30 := by
    change slopeOf a.v a.c 0 * 1 = 1 / 30
    simp [slopeOf, hv0, hv1, hc0, hc1]
  have hvisit : visitPoissonProcess s = .ok (.cross (s.rateOf 0) (a.v 0) (a.v 1))
      (s.drawn (s.rateOf 0) (a.v 1)) := by
    have hlarge : a.v 1 ≤ a.v 0 + s.exponentialOf (s.rateOf 0) := by
      change a.v 1 ≤ a.v 0 + 40
      rw [hv0, hv1]
      norm_num
    exact visit_cross (i := 0) hp (by change 1 < a.size; omega) le_rfl
      (by change a.v 0 < a.v 1; rw [hv0, hv1]; norm_num) (by rw [hv0]; norm_num)
      (by rw [hr]; norm_num) hlarge
  have hlast : visitPoissonProcess (s.drawn (s.rateOf 0) (a.v 1))
      = .error .assertion ((s.drawn (s.rateOf 0) (a.v 1)).at_ (a.v 1)) := by
    refine visit_last (position_drawn _ _ _) (by rw [hv1]; norm_num) fun i hi => ?_
    exact a.v_le (by change i < a.size at hi; omega) (by omega)
  have herr : generateTimeOfRequestPoissonProcess s
      = .error .assertion ((s.drawn (s.rateOf 0) (a.v 1)).at_ (a.v 1)) := by
    change poissonProcess (a.size + 1) s = _
    rw [hsize, poissonProcess_succ, hvisit]
    dsimp only
    rw [poissonProcess_succ, hlast]
  refine ⟨⟨_, herr⟩, fun hsafe => ?_⟩
  obtain ⟨t, s', hok⟩ := hsafe (Tape ℝ) inferInstance Tape.positiveExponentialLaw.nonneg s
    (.started sampleStream_started) (by rw [rowPattern_eq rfl]; norm_num; rfl) one_pos rfl
  rw [herr] at hok
  cases hok

end Real

end Trademgen
