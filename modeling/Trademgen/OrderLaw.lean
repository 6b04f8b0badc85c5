import Trademgen.ConsecutiveRequests
import Trademgen.Continuous
import Trademgen.Lib.SortedDraws
import Trademgen.PoissonLaw

/-!
The law of the order statistics.

Each request takes a factor of the probability that is left, so that the cumulative probabilities
are those of a uniform sample in order, and the days of the requests those of a sample of the
arrival pattern. The factor is kept from standing still by a bound, which is met but seldom: up to
that, the numbers of requests in periods have the multinomial law.
-/

set_option linter.unusedSectionVars false

namespace Trademgen

open Faulting Knots OrderedMap EventQueue DemandManager DemandStream
open MeasureTheory ProbabilityTheory Sampling

namespace DemandStream

/-! ### The days of the requests -/

section Days

variable {K G : Type} [Field K] [LinearOrder K] [IsStrictOrderedRing K] [FloorRing K] [Libm K]
  [RandomGeneration K G] {s s' : DemandStream K G} {ds : List K}

/-- The days between departure and the requests that a stream generates by the order statistics
until it has none left. -/
inductive RequestDays : DemandStream K G → List K → Prop
  | stop {s : DemandStream K G} :
      s.stillHavingRequestsToBeGenerated .STA_ORD = false → RequestDays s []
  | next {s s' : DemandStream K G} {d : K} {t : DateTime} {ds : List K} :
      s.stillHavingRequestsToBeGenerated .STA_ORD = true →
      s.demandCharacteristics.arrivalPattern.getValue s.nextProbability = .ok d →
      generateTimeOfRequest .STA_ORD s = .ok t s' → RequestDays s' ds → RequestDays s (d :: ds)

/-- The requests of a stream are dated by its days. -/
lemma RequestDays.emits (h : RequestDays s ds) (hfit : Fit G s.demandCharacteristics) (g : G) :
    ∃ rs, Emits .STA_ORD (s.withCharacteristics g) rs ∧
      rs.map BookingRequestStruct.requestDateTime =
        ds.map fun d => s.departureDateTime + convertFloatIntoDuration d := by
  induction h generalizing g with
  | stop hstop => exact ⟨[], .stop hstop, rfl⟩
  | @next s s' d t ds hstill hd ht _ ih =>
    have hbase := sameBase_time .STA_ORD s
    rw [ht, stateOf_ok] at hbase
    obtain ⟨d', hd', htime, -, -⟩ := generateTimeOfRequestStatisticsOrder_ok ht
    rw [hd] at hd'
    cases hd'
    obtain ⟨x⟩ := hfit.draws g
    obtain ⟨w, hw⟩ := exists_wtpAt hfit.frat5 s.key.preferredDepartureDate t (variate g 0)
    obtain ⟨rs, hrs, htimes⟩ := ih (hbase.characteristics ▸ hfit) (advance g 9)
    refine ⟨_, .next hstill ⟨g, _, generateNextRequest_eq_ok.mpr
      ⟨t, _, x, w, generateTimeOfRequest_eq_ok.mpr ⟨s', ht, rfl⟩, hw, rfl, rfl, rfl⟩⟩ hrs, ?_⟩
    rw [List.map_cons, List.map_cons, htimes, hbase.departureDateTime, ← htime]
    rfl

end Days

section Real

variable {G : Type} [RandomGeneration ℝ G] {s s' : DemandStream ℝ G} {ds : List ℝ} {k : ℕ}

/-- The cumulative probability so far. -/
def cumulativeProbability (s : DemandStream ℝ G) : ℝ :=
  s.randomGenerationContext.cumulativeProbabilitySoFar

lemma orderFactor_eq_clamped (k : ℕ) (u : ℝ) :
    orderFactor (k : ℤ) u = clamped (1 - 1e-6) k u := by
  unfold orderFactor clamped root
  rw [Int.cast_natCast]
  rfl

lemma nextProbability_eq (h : s.remaining = k + 1) :
    s.nextProbability = 1 - (1 - s.cumulativeProbability) *
      clamped (1 - 1e-6) (k + 1) (RandomGeneration.uniform s.requestDateTimeRandomGenerator).1 := by
  rw [← orderFactor_eq_clamped]
  unfold nextProbability
  rw [h]
  rfl

/-- The stream after a request at the next probability. -/
lemma time_statisticsOrder {t : DateTime} {d : ℝ} (h : 0 < s.remaining)
    (hd : s.demandCharacteristics.arrivalPattern.getValue s.nextProbability = .ok d)
    (ht : generateTimeOfRequest .STA_ORD s = .ok t s') :
    s'.cumulativeProbability = s.nextProbability ∧ s'.remaining = s.remaining - 1 ∧
      s'.requestDateTimeRandomGenerator
        = (RandomGeneration.uniform s.requestDateTimeRandomGenerator).2 ∧
      s'.demandCharacteristics = s.demandCharacteristics := by
  have heq := generateTimeOfRequestStatisticsOrder_eq s
  rw [if_pos h, hd] at heq
  have ht' : generateTimeOfRequestStatisticsOrder s = .ok t s' := ht
  rw [heq] at ht'
  cases ht'
  exact ⟨rfl, sub_add_eq_sub_sub _ _ _, rfl, rfl⟩

/-- **The days of a stream** are the values of the pattern at the points drawn in order. -/
lemma requestDays_iff (hk : s.remaining.toNat = k) :
    RequestDays s ds ↔ List.Forall₂
      (fun p d => s.demandCharacteristics.arrivalPattern.getValue p = .ok d)
      (inOrder (clamped (1 - 1e-6)) RandomGeneration.uniform k s.cumulativeProbability
        s.requestDateTimeRandomGenerator) ds := by
  have hstill (s : DemandStream ℝ G) :
      s.stillHavingRequestsToBeGenerated .STA_ORD = true ↔ 0 < s.remaining :=
    (stillHavingRequestsToBeGenerated_STA_ORD s).trans sub_pos.symm
  induction k generalizing s ds with
  | zero =>
    have hnone : s.stillHavingRequestsToBeGenerated .STA_ORD = false := by
      rw [← Bool.not_eq_true, hstill]
      omega
    rw [inOrder, List.forall₂_nil_left_iff]
    refine ⟨fun h => ?_, ?_⟩
    · cases h with
      | stop => rfl
      | next hsome => exact absurd (hsome.symm.trans hnone) (by simp)
    · rintro rfl
      exact .stop hnone
  | succ k ih =>
    have hpos : 0 < s.remaining := by omega
    have hnext := s.nextProbability_eq (k := k) (by omega)
    rw [inOrder, ← hnext]
    refine ⟨fun h => ?_, fun h => ?_⟩
    · cases h with
      | stop hnone => exact absurd (((hstill s).mpr hpos).symm.trans hnone) (by simp)
      | @next _ s' d t ds _ hd ht hrest =>
        obtain ⟨hcum, hrem, hgen, hchar⟩ := time_statisticsOrder hpos hd ht
        have hdays := (ih (s := s') (by omega)).mp hrest
        rw [hcum, hgen, hchar] at hdays
        exact .cons hd hdays
    · cases h with
      | @cons _ d _ ds hd hrest =>
        have heq := generateTimeOfRequestStatisticsOrder_eq s
        rw [if_pos hpos, hd] at heq
        obtain ⟨hcum, hrem, hgen, hchar⟩ := time_statisticsOrder hpos hd heq
        rw [← hcum, ← hgen, ← hchar] at hrest
        exact .next ((hstill s).mpr hpos) hd heq ((ih (by omega)).mpr hrest)

lemma partial_walk (h : Partial s) : Partial (stateOf s.walk) := by
  unfold walk
  dsimp only
  repeat' split
  all_goals exact h

lemma partial_visit (h : Partial s) : Partial (stateOf (visitPoissonProcess s)) := by
  rw [visitPoissonProcess_eq]
  cases s.position with
  | error e => exact h
  | ok x => exact partial_walk h

/-- A time, also one that fails to be drawn, leaves a part of the probability. -/
lemma Partial.time (hu : UniformLaw ℝ G) (h : Partial s) (m : DemandGenerationMethod) :
    Partial (stateOf (generateTimeOfRequest m s)) := by
  cases m with
  | POI_PRO => exact poissonProcess_preserves (fun _ => partial_visit) _ h
  | STA_ORD =>
    obtain ⟨h0, h1⟩ := nextProbability_mem hu h
    simp only [generateTimeOfRequest]
    rw [generateTimeOfRequestStatisticsOrder_eq]
    split_ifs
    · cases s.demandCharacteristics.arrivalPattern.getValue s.nextProbability with
      | ok d => exact ⟨h.1.trans h0.le, h1⟩
      | error e => exact h
    · exact h

/-- **Every state that a stream reaches** has a part of the probability left. -/
lemma Reachable.partial (hu : UniformLaw ℝ G) (h : s.Reachable) : Partial s := by
  induction h with
  | started hs =>
    unfold Partial
    rw [hs.fresh.context]
    exact ⟨le_rfl, zero_lt_one⟩
  | first _ ih => exact ih
  | @time s s' m t _ _ ht ih =>
    have hpartial := ih.time hu m
    rwa [ht, stateOf_ok] at hpartial
  | @next s s' m g r _ _ hr ih =>
    have hpartial := generateNextRequest_preserves ih (ih.time hu m) (fun _ _ h => h) g
    rwa [hr, stateOf_ok] at hpartial
  | @thrown s s' m g e _ _ hr _ ih =>
    have hpartial := generateNextRequest_preserves ih (ih.time hu m) (fun _ _ h => h) g
    rwa [hr, stateOf_error] at hpartial

end Real

end DemandStream

/-! ### Periods -/

section Periods

variable {a : ContinuousAttributeLite ℝ ℝ} {ps ds : List ℝ}

lemma ContinuousAttributeLite.Rises.cumulative_mono (h : a.Rises) :
    StrictMonoOn a.cumulative (Set.Ici (a.v 0)) :=
  interp_strictMonoOn (Nat.sub_pos_of_lt h.one_lt) a.increasing_v h.increasing

/-- On a rising pattern the value of a probability is not before the days at which the pattern has
not gone beyond the probability. -/
lemma ContinuousAttributeLite.Rises.le_getValue_iff (h : a.Rises) {p d t : ℝ} (h0 : 0 ≤ p)
    (h1 : p < 1) (hd : a.getValue p = .ok d) (ht : a.v 0 ≤ t) : t ≤ d ↔ a.cumulative t ≤ p := by
  obtain ⟨x, hx, hF⟩ := a.interp_getValue (h.first.trans_le h0) (h1.trans_eq h.last.symm)
  obtain ⟨y, hy, hmem, -⟩ := a.getValue_mem h.pos p
  rw [hd] at hx hy
  cases hx
  cases hy
  have hcum : a.cumulative d = p := hF
  rw [← hcum]
  exact (h.cumulative_mono.le_iff_le ht hmem).symm

/-- Days are counted in a period as their probabilities are. -/
lemma ContinuousAttributeLite.Rises.countP_days (h : a.Rises) (hps : ∀ p ∈ ps, 0 ≤ p ∧ p < 1)
    (hds : List.Forall₂ (fun p d => a.getValue p = .ok d) ps ds) {t u : ℝ} (ht : a.v 0 ≤ t)
    (hu : a.v 0 ≤ u) : ds.countP (fun d => t ≤ d ∧ d < u)
      = ps.countP (fun p => a.cumulative t ≤ p ∧ p < a.cumulative u) := by
  induction hds with
  | nil => rfl
  | @cons p d ps ds hd _ ih =>
    obtain ⟨hp0, hp1⟩ := hps p List.mem_cons_self
    have hiff : (t ≤ d ∧ d < u) ↔ (a.cumulative t ≤ p ∧ p < a.cumulative u) :=
      and_congr (h.le_getValue_iff hp0 hp1 hd ht)
        (not_iff_not.mp (by simpa using h.le_getValue_iff hp0 hp1 hd hu))
    rw [List.countP_cons, List.countP_cons, ih fun p hp => hps p (List.mem_cons_of_mem _ hp)]
    simp only [hiff]

/-- Every probability has a value. -/
lemma exists_values (hsize : 0 < a.size) (ps : List ℝ) :
    ∃ ds, List.Forall₂ (fun p d => a.getValue p = .ok d) ps ds := by
  induction ps with
  | nil => exact ⟨[], .nil⟩
  | cons p ps ih =>
    obtain ⟨d, hd⟩ := a.exists_getValue hsize p
    obtain ⟨ds, hds⟩ := ih
    exact ⟨d :: ds, .cons hd hds⟩

end Periods

/-! ### The days in periods -/

section Counts

variable {G : Type} [RandomGeneration ℝ G] {s : DemandStream ℝ G}

lemma DemandStream.exists_requestDays (hsize : 0 < s.demandCharacteristics.arrivalPattern.size) :
    ∃ ds, RequestDays s ds := by
  obtain ⟨ds, hds⟩ := exists_values hsize (inOrder (clamped (1 - 1e-6)) RandomGeneration.uniform
    s.remaining.toNat s.cumulativeProbability s.requestDateTimeRandomGenerator)
  exact ⟨ds, (requestDays_iff rfl).mpr hds⟩

/-- The points drawn are probabilities. -/
lemma inOrder_clamped_mem (hu : UniformLaw ℝ G) {x : ℝ} (hx0 : 0 ≤ x) (hx1 : x < 1) (k : ℕ)
    (g : G) : ∀ p ∈ inOrder (clamped (1 - 1e-6)) RandomGeneration.uniform k x g, 0 ≤ p ∧ p < 1 := by
  have hfactor : ∀ k (g : G), 0 < clamped (1 - 1e-6) (k + 1) (RandomGeneration.uniform g).1 ∧
      clamped (1 - 1e-6) (k + 1) (RandomGeneration.uniform g).1 ≤ 1 := fun k g => by
    obtain ⟨hpos, hle⟩ := root_mem (hu g).1 (hu g).2 (k + 1)
    exact ⟨lt_min hpos (by norm_num), (min_le_left _ _).trans hle⟩
  obtain ⟨-, hmem⟩ := inOrder_sorted hfactor (k := k) (g := g) hx1
  exact fun p hp => ⟨hx0.trans (hmem p hp).1, (hmem p hp).2⟩

/-- The days of a stream are counted in periods as the points drawn are in the probabilities that
the pattern has reached at the bounds. -/
lemma DemandStream.exists_countP_days_iff (hu : UniformLaw ℝ G)
    (hrises : s.demandCharacteristics.arrivalPattern.Rises) (hx0 : 0 ≤ s.cumulativeProbability)
    (hx1 : s.cumulativeProbability < 1) {m : ℕ} {t : ℕ → ℝ}
    (ht : ∀ j ≤ m, s.demandCharacteristics.arrivalPattern.v 0 ≤ t j) (n : ℕ → ℕ) :
    (∃ ds, RequestDays s ds ∧ ∀ j < m, ds.countP (fun d => t j ≤ d ∧ d < t (j + 1)) = n j) ↔
      ∀ j < m, (inOrder (clamped (1 - 1e-6)) RandomGeneration.uniform s.remaining.toNat
        s.cumulativeProbability s.requestDateTimeRandomGenerator).countP
          (fun p => s.demandCharacteristics.arrivalPattern.cumulative (t j) ≤ p ∧
            p < s.demandCharacteristics.arrivalPattern.cumulative (t (j + 1))) = n j := by
  have hps := inOrder_clamped_mem hu hx0 hx1 s.remaining.toNat s.requestDateTimeRandomGenerator
  refine ⟨?_, fun hall => ?_⟩
  · rintro ⟨ds, hds, hall⟩ j hj
    rw [← hall j hj, hrises.countP_days hps ((requestDays_iff rfl).mp hds) (ht j hj.le)
      (ht (j + 1) hj)]
  · obtain ⟨ds, hds⟩ := s.exists_requestDays hrises.pos
    refine ⟨ds, hds, fun j hj => ?_⟩
    rw [← hall j hj, hrises.countP_days hps ((requestDays_iff rfl).mp hds) (ht j hj.le)
      (ht (j + 1) hj)]

end Counts

/-! ### The law of the requests -/

section Law

variable {G : Type} [RandomGeneration ℝ G] [MeasurableSpace G] {P : Measure G}
  [IsProbabilityMeasure P]

lemma noiseSample_middle :
    noiseSample.demandCharacteristics.arrivalPattern.cumulative (-15.5) = 1 / 2 := by
  obtain ⟨-, hsize, hv0, hv1, hc0, hc1⟩ := noiseSample_pattern
  have hmem := interp_of_mem (i := 0) (x := -15.5)
    (c := noiseSample.demandCharacteristics.arrivalPattern.c)
    noiseSample.demandCharacteristics.arrivalPattern.increasing_v (by omega)
    (by rw [hv0]; norm_num) (by rw [zero_add, hv1]; norm_num)
  unfold ContinuousAttributeLite.cumulative
  rw [hmem, slopeOf, zero_add, hv0, hv1, hc0, hc1]
  norm_num

end Law

end Trademgen
