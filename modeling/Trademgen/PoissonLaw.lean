import Trademgen.Lib.PoissonRow
import Trademgen.PoissonEnds

/-!
The law of the Poisson walk.

The walk draws one exponential variate after the other, at the rate of the interval it is in, and
gives up the one that goes beyond its interval. The offsets it accepts are those of a Poisson
process all the same, whose mean measure is the demand expected: the numbers of requests in periods
one after the other are independent, and each has the Poisson law.
-/

set_option linter.unusedSectionVars false

namespace Trademgen

open Faulting Knots OrderedMap EventQueue DemandManager DemandStream
open MeasureTheory ProbabilityTheory Sampling

namespace DemandStream

/-! ### The offsets of a run -/

section Offsets

variable {K G : Type} [Field K] [LinearOrder K] [IsStrictOrderedRing K] [FloorRing K] [Libm K]
  [RandomGeneration K G] {s s' : DemandStream K G} {ys : List K}

/-- The offsets of the requests that a stream accepts until it stops. -/
def Offsets (s : DemandStream K G) (ys : List K) : Prop :=
  ∃ vs s', Run s vs s' ∧ s'.stillHavingRequests = false ∧ vs.filterMap Visit.offset = ys

/-- A stream that has requests is called before it stops. -/
lemma Run.exists_call {vs : List (Visit K)} (h : Run s vs s')
    (hend : s'.stillHavingRequests = false) (hstill : s.stillHavingRequests = true) :
    ∃ ws t s₁ us, vs = ws ++ us ∧ Call s ws t s₁ ∧ Run s₁ us s' := by
  cases h with
  | nil => exact absurd (hstill.symm.trans hend) (by simp)
  | call _ hcall hrest => exact ⟨_, _, _, _, rfl, hcall, hrest⟩

/-- A stream that has stopped is not called again. -/
lemma Run.of_stopped {vs : List (Visit K)} (h : Run s vs s')
    (hstill : s.stillHavingRequests = false) : vs = [] ∧ s' = s := by
  cases h with
  | nil => exact ⟨rfl, rfl⟩
  | call hstill' _ _ => exact absurd (hstill.symm.trans hstill') (by simp)

lemma offsets_stop {t : DateTime} (hv : visitPoissonProcess s = .ok (.stop t) s')
    (hstill : s.stillHavingRequests = true) (hend : s'.stillHavingRequests = false) :
    Offsets s ys ↔ ys = [] := by
  refine ⟨?_, ?_⟩
  · rintro ⟨vs, s'', hrun, hend', rfl⟩
    obtain ⟨ws, u, s₁, us, rfl, hcall, hrest⟩ := hrun.exists_call hend' hstill
    obtain ⟨rfl, -, rfl⟩ := hcall.unique (.stop hv)
    obtain ⟨rfl, -⟩ := hrest.of_stopped hend
    rfl
  · rintro rfl
    exact ⟨_, _, .call hstill (.stop hv) (.nil s'), hend, rfl⟩

lemma offsets_accept {t : DateTime} {r x y : K}
    (hv : visitPoissonProcess s = .ok (.accept t r x y) s')
    (hstill : s.stillHavingRequests = true) :
    Offsets s ys ↔ ∃ ys', ys = y :: ys' ∧ Offsets s' ys' := by
  refine ⟨?_, ?_⟩
  · rintro ⟨vs, s'', hrun, hend, rfl⟩
    obtain ⟨ws, u, s₁, us, rfl, hcall, hrest⟩ := hrun.exists_call hend hstill
    obtain ⟨rfl, -, rfl⟩ := hcall.unique (.accept hv)
    exact ⟨_, rfl, us, s'', hrest, hend, rfl⟩
  · rintro ⟨ys', rfl, vs, s'', hrun, hend, rfl⟩
    exact ⟨_, _, .call hstill (.accept hv) hrun, hend, rfl⟩

lemma offsets_cross {r x y : K} (hv : visitPoissonProcess s = .ok (.cross r x y) s')
    (hstill : s.stillHavingRequests = true) (hstill' : s'.stillHavingRequests = true) :
    Offsets s ys ↔ Offsets s' ys := by
  refine ⟨?_, ?_⟩
  · rintro ⟨vs, s'', hrun, hend, rfl⟩
    obtain ⟨ws, u, s₁, us, rfl, hcall, hrest⟩ := hrun.exists_call hend hstill
    cases hcall with
    | stop hv' => rw [hv] at hv'; cases hv'
    | accept hv' => rw [hv] at hv'; cases hv'
    | cross hv' hcall =>
      rw [hv] at hv'
      cases hv'
      exact ⟨_, s'', .call hstill' hcall hrest, hend, rfl⟩
  · rintro ⟨vs, s'', hrun, hend, rfl⟩
    obtain ⟨ws, u, s₁, us, rfl, hcall, hrest⟩ := hrun.exists_call hend hstill'
    exact ⟨_, s'', .call hstill (.cross hv hcall) hrest, hend, rfl⟩

/-- The date-time that a visit returns. -/
def Visit.dateTime : Visit K → Option DateTime
  | .stop t => some t
  | .accept t _ _ _ => some t
  | .cross _ _ _ => none

lemma Call.dateTime {vs : List (Visit K)} {t : DateTime} (h : Call s vs t s') :
    vs.filterMap Visit.dateTime = [t] := by
  induction h with
  | stop => rfl
  | accept => rfl
  | cross _ _ ih => exact ih

/-- The requests of a stream are dated by the visits of its run. -/
lemma Run.emits {vs : List (Visit K)} (h : Run s vs s') (hend : s'.stillHavingRequests = false)
    (hfit : Fit G s.demandCharacteristics) (g : G) :
    ∃ rs, Emits .POI_PRO (s.withCharacteristics g) rs ∧
      rs.map BookingRequestStruct.requestDateTime = vs.filterMap Visit.dateTime := by
  induction h generalizing g with
  | nil => exact ⟨[], .stop hend, rfl⟩
  | @call s s₁ s' vs ws t hstill hcall _ ih =>
    obtain ⟨x⟩ := hfit.draws g
    obtain ⟨w, hw⟩ := exists_wtpAt hfit.frat5 s.key.preferredDepartureDate t (variate g 0)
    obtain ⟨rs, hrs, htimes⟩ := ih hend (hcall.sameBase.characteristics ▸ hfit) (advance g 9)
    refine ⟨_, .next hstill ⟨g, _, generateNextRequest_eq_ok.mpr
      ⟨t, _, x, w, generateTimeOfRequest_eq_ok.mpr ⟨s₁, hcall.generateTimeOfRequest, rfl⟩, hw,
        rfl, rfl, rfl⟩⟩ hrs, ?_⟩
    rw [List.map_cons, List.filterMap_append, hcall.dateTime, htimes]
    rfl

end Offsets

/-! ### The row of intervals -/

section Row

variable {G : Type} [RandomGeneration ℝ G] {s : DemandStream ℝ G} {x : ℝ} {i k : ℕ} {ys : List ℝ}

/-- The intervals from a knot to another, each with its rate and its end. -/
noncomputable def intervals (s : DemandStream ℝ G) (i k : ℕ) : List (ℝ × ℝ) :=
  (List.range' i (k - i)).map fun j =>
    (s.rateOf j, s.demandCharacteristics.arrivalPattern.v (j + 1))

lemma intervals_self (s : DemandStream ℝ G) (k : ℕ) : s.intervals k k = [] := by
  simp [intervals]

lemma intervals_cons (s : DemandStream ℝ G) (h : i < k) :
    s.intervals i k = (s.rateOf i, s.demandCharacteristics.arrivalPattern.v (i + 1))
      :: s.intervals (i + 1) k := by
  obtain ⟨d, rfl⟩ := Nat.exists_eq_add_of_lt h
  unfold intervals
  rw [show i + d + 1 - i = d + 1 by omega, show i + d + 1 - (i + 1) = d by omega, List.range'_succ,
    List.map_cons]

/-- A stream that walks in the interval from the knot `i`, or stands at the last knot. -/
structure At (i k : ℕ) (s : DemandStream ℝ G) (x : ℝ) : Prop where
  way : OnWay k s
  still : s.stillHavingRequests = true
  position : s.position = .ok x
  start : s.demandCharacteristics.arrivalPattern.startKnot ≤ i
  le : i ≤ k
  low : s.demandCharacteristics.arrivalPattern.v i ≤ x
  high : i < k → x < s.demandCharacteristics.arrivalPattern.v (i + 1)
  last : i = k → x = -1

lemma At.rate_pos (h : At i k s x) (hi : i < k) : 0 < s.rateOf i :=
  mul_pos (slopeOf_pos (h.low.trans_lt (h.high hi)) (h.way.leads.rising i h.start hi))
    h.way.mean_pos

lemma At.size (h : At i k s x) (hi : i < k) :
    i + 1 < s.demandCharacteristics.arrivalPattern.size :=
  (Nat.succ_le_of_lt hi).trans_lt h.way.leads.lt

lemma At.lt_last (h : At i k s x) (hi : i < k) : x < -1 := by
  rw [← h.way.leads.last]
  exact (h.high hi).trans_le (s.demandCharacteristics.arrivalPattern.v_le hi h.way.leads.lt)

/-- A stream on its way is somewhere on the row. -/
lemma OnWay.exists_at (h : OnWay k s) (hstill : s.stillHavingRequests = true)
    (hx : s.position = .ok x) : ∃ i, At i k s x := by
  obtain ⟨x', hx', h0, h1⟩ := h.position
  obtain rfl : x = x' := by
    rw [hx] at hx'
    cases hx'
    rfl
  rcases h1.eq_or_lt with rfl | h1
  · exact ⟨k, h, hstill, hx, h.leads.start, le_rfl, h.leads.last.le, fun hk => absurd hk
      (lt_irrefl k), fun _ => rfl⟩
  · obtain ⟨i, hi, hxi, hxi', hle, -⟩ := h.leads.exists_interval h0 h1
    have hstart : s.demandCharacteristics.arrivalPattern.startKnot ≤ i := by
      by_contra hc
      exact absurd (h0.trans_lt hxi') (not_lt.mpr
        (ContinuousAttributeLite.v_le _ (by omega) (h.leads.start.trans_lt h.leads.lt)))
    have hik : i < k := by
      by_contra hc
      have hlt := s.demandCharacteristics.arrivalPattern.increasing_v.lt
        (show k < i + 1 by omega) (by omega)
      rw [h.leads.last] at hlt
      exact absurd hle (not_le.mpr hlt)
    exact ⟨i, h, hstill, hx, hstart, hik.le, hxi, fun _ => hxi', fun hk => absurd hk hik.ne⟩

/-- The walk goes on from an offset it accepts. -/
lemma At.accepted (he : ExponentialLaw ℝ G) (h : At i k s x) (hi : i < k)
    (hsmall : x + s.exponentialOf (s.rateOf i)
      < s.demandCharacteristics.arrivalPattern.v (i + 1)) :
    At i k (s.accepted (s.rateOf i) (x + s.exponentialOf (s.rateOf i)))
      (x + s.exponentialOf (s.rateOf i)) := by
  have hvariate : 0 ≤ s.exponentialOf (s.rateOf i) := he _ _ (h.rate_pos hi)
  have hx : x ≤ x + s.exponentialOf (s.rateOf i) := le_add_of_nonneg_right hvariate
  have hstart := ContinuousAttributeLite.v_le s.demandCharacteristics.arrivalPattern h.start
    (hi.trans h.way.leads.lt)
  have hend := ContinuousAttributeLite.v_le s.demandCharacteristics.arrivalPattern
    (Nat.succ_le_of_lt hi) h.way.leads.lt
  rw [h.way.leads.last] at hend
  exact ⟨⟨h.way.leads, h.way.mean_pos, _, rfl, (hstart.trans h.low).trans hx,
    (hsmall.trans_le hend).le⟩, h.still, rfl, h.start, h.le, h.low.trans hx, fun _ => hsmall,
    fun hk => absurd hk hi.ne⟩

/-- The walk goes on from the knot it crosses. -/
lemma At.drawn (h : At i k s x) (hi : i < k) :
    At (i + 1) k (s.drawn (s.rateOf i) (s.demandCharacteristics.arrivalPattern.v (i + 1)))
      (s.demandCharacteristics.arrivalPattern.v (i + 1)) := by
  have hstart := ContinuousAttributeLite.v_le s.demandCharacteristics.arrivalPattern
    (h.start.trans i.le_succ) (h.size hi)
  have hend := ContinuousAttributeLite.v_le s.demandCharacteristics.arrivalPattern
    (Nat.succ_le_of_lt hi) h.way.leads.lt
  rw [h.way.leads.last] at hend
  refine ⟨⟨h.way.leads, h.way.mean_pos, _, rfl, hstart, hend⟩, h.still, rfl,
    h.start.trans i.le_succ, hi, le_rfl, fun hi' => ?_, ?_⟩
  · exact s.demandCharacteristics.arrivalPattern.increasing_v.lt (Nat.lt_succ_self _)
      (by have := h.way.leads.lt; omega)
  · rintro rfl
    exact h.way.leads.last

/-- **The offsets of a walk** are the points laid along its row. -/
lemma At.offsets_iff (he : ExponentialLaw ℝ G) (h : At i k s x) :
    Offsets s ys ↔ Lays RandomGeneration.exponential (s.intervals i k) x
      s.requestDateTimeRandomGenerator ys := by
  induction hd : k - i generalizing i s x ys with
  | zero =>
    obtain rfl : i = k := le_antisymm h.le (by omega)
    obtain rfl := h.last rfl
    rw [intervals_self, lays_nil_iff]
    exact offsets_stop (visit_stop h.position) h.still rfl
  | succ d ih =>
    have hi : i < k := by omega
    induction hn : ys.length using Nat.strong_induction_on generalizing s x ys with
    | _ n ihn =>
      have hx : x ≠ -1 := (h.lt_last hi).ne
      rcases lt_or_ge (x + s.exponentialOf (s.rateOf i))
        (s.demandCharacteristics.arrivalPattern.v (i + 1)) with hsmall | hlarge
      · rw [s.intervals_cons hi, lays_cons_iff, offsets_accept (visit_accept h.position
          (h.size hi) h.low (h.high hi) hx (h.rate_pos hi) hsmall) h.still]
        have hrest (ys' : List ℝ) (hys : ys = (x + s.exponentialOf (s.rateOf i)) :: ys') :=
          ihn ys'.length (by rw [← hn, hys]; exact Nat.lt_succ_self _) (h.accepted he hi hsmall) rfl
        rw [← s.intervals_cons hi]
        refine ⟨?_, ?_⟩
        · rintro ⟨ys', hys, h⟩
          exact .inl ⟨hsmall, ys', hys, (hrest ys' hys).mp h⟩
        · rintro (⟨_, ys', hys, h⟩ | ⟨hlarge, _⟩)
          · exact ⟨ys', hys, (hrest ys' hys).mpr h⟩
          · exact absurd hsmall (not_lt.mpr hlarge)
      · rw [s.intervals_cons hi, lays_cons_iff]
        rw [offsets_cross (visit_cross h.position (h.size hi) h.low (h.high hi) hx
          (h.rate_pos hi) hlarge) h.still h.still, ih (h.drawn hi) (by omega)]
        exact ⟨fun h => .inr ⟨hlarge, h⟩, fun h => h.elim (fun h => absurd h.1 (not_lt.mpr hlarge))
          And.right⟩

lemma isRow_intervals (hleads : s.demandCharacteristics.arrivalPattern.Leads k)
    (hmean : 0 < s.demandDistribution.meanNumberOfRequests)
    (hstart : s.demandCharacteristics.arrivalPattern.startKnot ≤ i) (hi : i < k)
    (hlow : s.demandCharacteristics.arrivalPattern.v i ≤ x)
    (hhigh : x < s.demandCharacteristics.arrivalPattern.v (i + 1)) :
    IsRow s.expected x (s.intervals i k) (-1) := by
  induction hd : k - i generalizing i x with
  | zero => omega
  | succ d ih =>
    have hsize : i + 1 < s.demandCharacteristics.arrivalPattern.size :=
      (Nat.succ_le_of_lt hi).trans_lt hleads.lt
    have hrate : Rate s.expected (s.rateOf i) x
        (s.demandCharacteristics.arrivalPattern.v (i + 1)) := fun y hxy hy => by
      rw [rateOf_mul hsize hlow hxy hy, add_sub_cancel]
    rw [s.intervals_cons hi]
    refine .cons (mul_pos (slopeOf_pos (hlow.trans_lt hhigh) (hleads.rising i hstart hi)) hmean)
      hhigh.le hrate ?_
    rcases (Nat.succ_le_of_lt hi).eq_or_lt with rfl | hi'
    · rw [intervals_self, hleads.last]
      exact .nil _
    · exact ih (hstart.trans i.le_succ) hi' le_rfl
        (ContinuousAttributeLite.v_lt _ (Nat.lt_succ_self _)
          ((Nat.succ_le_of_lt hi').trans_lt hleads.lt)) (by omega)

/-- The demand expected rises along the row by the rates of its intervals. -/
lemma At.isRow (h : At i k s x) : IsRow s.expected x (s.intervals i k) (-1) := by
  rcases h.le.eq_or_lt with hi | hi
  · rw [hi, intervals_self, h.last hi]
    exact .nil _
  · exact isRow_intervals h.way.leads h.way.mean_pos h.start hi h.low (h.high hi)

lemma measurable_expected (s : DemandStream ℝ G) : Measurable s.expected := by
  have hinterp (v c : ℕ → ℝ) (n : ℕ) : Measurable (interp v c n) := by
    induction n with
    | zero => exact measurable_const
    | succ n ih =>
      exact ih.ite measurableSet_Iio (((measurable_id.sub_const _).const_mul _).const_add _)
  exact (hinterp _ _ _).const_mul _

/-- The stream with another state of the generator of its times. -/
def withRequestDateTime (s : DemandStream ℝ G) (g : G) : DemandStream ℝ G :=
  { s with requestDateTimeRandomGenerator := g }

lemma At.withRequestDateTime (h : At i k s x) (g : G) : At i k (s.withRequestDateTime g) x :=
  ⟨⟨h.way.leads, h.way.mean_pos, h.way.position⟩, h.still, h.position, h.start, h.le, h.low, h.high,
    h.last⟩

end Row

end DemandStream

/-! ### The law of the requests -/

section Law

variable {G : Type} [RandomGeneration ℝ G] [MeasurableSpace G] {P : Measure G}
  [IsProbabilityMeasure P]

/-- A generator that reads independent variates off a sequence. -/
def Noise : Type := ℕ → ℝ

instance Noise.measurableSpace : MeasurableSpace Noise := inferInstanceAs (MeasurableSpace (ℕ → ℝ))

noncomputable instance Noise.randomGeneration : RandomGeneration ℝ Noise where
  init _ := fun _ => 0
  uniform g := (1 - Real.exp (-max (g 0) 0), fun i => g (i + 1))
  exponential r g := (max (g 0) 0 / r, fun i => g (i + 1))
  normal mean _ g := (mean, g)

lemma Noise.uniformLaw : UniformLaw ℝ Noise := by
  intro g
  change 0 ≤ 1 - Real.exp (-max (g 0) 0) ∧ 1 - Real.exp (-max (g 0) 0) < 1
  have hle : Real.exp (-max (g 0) 0) ≤ 1 :=
    Real.exp_le_one_iff.mpr (neg_nonpos.mpr (le_max_right _ _))
  have hpos := Real.exp_pos (-max (g 0) 0)
  constructor <;> linarith

lemma Noise.exponentialLaw : ExponentialLaw ℝ Noise :=
  fun _ _ hr => div_nonneg (le_max_right _ _) hr.le

instance Noise.isProbabilityMeasure_expMeasure : IsProbabilityMeasure (expMeasure 1) :=
  ProbabilityTheory.isProbabilityMeasure_expMeasure one_pos

/-- The sequences of exponential variates of the rate one. -/
noncomputable def Noise.law : Measure Noise := Measure.infinitePi fun _ : ℕ => expMeasure 1

instance Noise.isProbabilityMeasure_law : IsProbabilityMeasure Noise.law :=
  inferInstanceAs (IsProbabilityMeasure (Measure.infinitePi fun _ : ℕ => expMeasure 1))

lemma Noise.source (r : ℝ) (hr : 0 < r) :
    Source (expMeasure r) Noise.law (RandomGeneration.exponential r) := by
  have h := Source.stream (expMeasure 1) (f := fun e => max e 0 / r) (by fun_prop)
  rwa [map_expMeasure hr] at h

lemma Noise.uniformSource :
    Source (volume.restrict (Set.Ico 0 1)) Noise.law RandomGeneration.uniform := by
  have h := Source.stream (expMeasure 1) (f := fun e => 1 - Real.exp (-max e 0)) (by fun_prop)
  rwa [map_expMeasure_uniform] at h

/-- A stream with a mean of two requests, whose walk ends one day before departure. -/
noncomputable def noiseSample : DemandStream ℝ Noise :=
  ((DemandStream.make sampleKey).setAll (sampleCharacteristics [(-30, 0), (-1, 1)] 36000)
    ⟨2, 0⟩ (RandomGeneration.init (K := ℝ) 0) 0 0).1

lemma noiseSample_pattern :
    let a := noiseSample.demandCharacteristics.arrivalPattern
    a.Rises ∧ a.size = 2 ∧ a.v 0 = -30 ∧ a.v 1 = -1 ∧ a.c 0 = 0 ∧ a.c 1 = 1 := by
  have hlt : (-30 : ℝ) < -1 := by norm_num
  exact ⟨ContinuousAttributeLite.rises_pair hlt, ContinuousAttributeLite.init_pair hlt 0 1⟩

lemma noiseSample_serviceable : noiseSample.Serviceable .POI_PRO := by
  obtain ⟨hrises, hsize, -, hv1, -, -⟩ := noiseSample_pattern
  refine ⟨⟨hrises.pos, ?_, fun g => ⟨sampleDraws Noise.uniformLaw g⟩⟩,
    fun _ => ⟨1, hrises.leads (by omega) hv1⟩, fun _ => hrises.nonneg, fun _ => two_pos⟩
  exact List.length_pos_of_ne_nil (OMap.ofPairs_pairs_ne_nil (by simp))

lemma noiseSample_start :
    noiseSample.demandCharacteristics.arrivalPattern.getValue 0 = .ok (-30) := by
  obtain ⟨hrises, -, hv0, -, -, -⟩ := noiseSample_pattern
  rw [← hv0, ← hrises.startKnot]
  exact ContinuousAttributeLite.getValue_zero hrises.pos hrises.nonneg

lemma noiseSample_cumulative :
    noiseSample.demandCharacteristics.arrivalPattern.cumulative (-30) = 0 ∧
      noiseSample.demandCharacteristics.arrivalPattern.cumulative (-1) = 1 := by
  obtain ⟨-, hsize, hv0, hv1, hc0, hc1⟩ := noiseSample_pattern
  have hknot (i : ℕ) (hi : i ≤ 1) := interp_knot (i := i)
    (c := noiseSample.demandCharacteristics.arrivalPattern.c)
    noiseSample.demandCharacteristics.arrivalPattern.increasing_v (by omega)
  unfold ContinuousAttributeLite.cumulative
  rw [← hv0, hknot 0 (by omega), hc0, ← hv1, hknot 1 le_rfl, hc1]
  exact ⟨rfl, rfl⟩

end Law

end Trademgen
