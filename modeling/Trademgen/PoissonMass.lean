import Trademgen.PoissonProcess

/-!
The demand carried by the Poisson walk.

On a piece of time the expected number of requests is the rate times the length. The pieces of a
run add up to the mean times the probability reached at `-1`, whatever the variates: the walk
stops one day before departure, and the part of the pattern after it is not walked.
-/

set_option linter.unusedSectionVars false

namespace Trademgen

open Faulting OrderedMap Knots

variable {K G : Type} [Field K] [LinearOrder K] [IsStrictOrderedRing K] [FloorRing K] [Libm K]
  [RandomGeneration K G]

/-- The cumulative function of a pattern. -/
def ContinuousAttributeLite.cumulative (a : ContinuousAttributeLite K K) : K → K :=
  interp a.v a.c (a.size - 1)

namespace DemandStream

/-- The rate of a piece times its length. -/
def Visit.mass : Visit K → K
  | .stop _ => 0
  | .accept _ rate start finish => rate * (finish - start)
  | .cross rate start finish => rate * (finish - start)

/-- The calls made one after the other while requests remain, and their visits. -/
inductive Run : DemandStream K G → List (Visit K) → DemandStream K G → Prop
  | nil (s) : Run s [] s
  | call {s s' s'' vs ws t} : s.stillHavingRequestsToBeGenerated .POI_PRO = true →
      Call s vs t s' → Run s' ws s'' → Run s (vs ++ ws) s''

/-- The demand expected before a position. -/
def expected (s : DemandStream K G) (x : K) : K :=
  s.demandDistribution.meanNumberOfRequests * s.demandCharacteristics.arrivalPattern.cumulative x

/-- A piece inside one interval carries the demand between its ends. -/
lemma rateOf_mul {s : DemandStream K G} {i : ℕ} {x y : K}
    (hi : i + 1 < s.demandCharacteristics.arrivalPattern.size)
    (h0 : s.demandCharacteristics.arrivalPattern.v i ≤ x) (hxy : x ≤ y)
    (h1 : y ≤ s.demandCharacteristics.arrivalPattern.v (i + 1)) :
    s.rateOf i * (y - x) = s.expected y - s.expected x := by
  have hsub := interp_sub (c := s.demandCharacteristics.arrivalPattern.c)
    s.demandCharacteristics.arrivalPattern.increasing_v (i := i) (by omega) h0 (hxy.trans h1)
    (h0.trans hxy) h1
  unfold expected ContinuousAttributeLite.cumulative rateOf
  calc slopeOf _ _ i * s.demandDistribution.meanNumberOfRequests * (y - x)
      = s.demandDistribution.meanNumberOfRequests * (slopeOf _ _ i * (y - x)) := by ring
    _ = _ := by rw [← hsub, mul_sub]

variable {k : ℕ}

lemma Inside.mass {s s' : DemandStream K G} {x y : K} {w : Visit K} (h : Inside s x w s')
    (hy : s'.position = .ok y) : w.mass = s.expected y - s.expected x := by
  cases h with
  | stop hx =>
    rw [position_stopped] at hy
    cases hy
    simp [Visit.mass, hx]
  | accept hi h0 hxy _ h1 _ =>
    cases hy
    exact rateOf_mul hi h0 hxy h1.le
  | cross hi h0 h1 _ =>
    cases hy
    exact rateOf_mul hi h0 h1.le le_rfl

/-- **The pieces of a call** carry the demand between its ends. -/
lemma Call.mass (he : ExponentialLaw K G) {s s' : DemandStream K G} {vs : List (Visit K)}
    {t : DateTime} (hcall : Call s vs t s') (h : OnWay k s) {x y : K} (hx : s.position = .ok x)
    (hy : s'.position = .ok y) : (vs.map Visit.mass).sum = s.expected y - s.expected x := by
  induction hcall generalizing x with
  | stop hv =>
    obtain ⟨hin, -⟩ := h.inside he hx hv
    simpa using hin.mass hy
  | accept hv =>
    obtain ⟨hin, -⟩ := h.inside he hx hv
    simpa using hin.mass hy
  | cross hv _ ih =>
    obtain ⟨hin, hway⟩ := h.inside he hx hv
    cases hin with
    | cross hi h0 h1 hle =>
      have hrest := ih hway (position_drawn _ _ _) hy
      have hpiece := rateOf_mul hi h0 h1.le le_rfl
      rw [List.map_cons, List.sum_cons, hrest]
      -- the piece just crossed ends at the knot where the rest of the call starts
      simp only [Visit.mass, hpiece]
      exact sub_add_sub_cancel' _ _ _

lemma SameBase.expected {s s' : DemandStream K G} (h : SameBase s s') (x : K) :
    s'.expected x = s.expected x := by
  unfold DemandStream.expected
  rw [h.characteristics, h.distribution]

/-- **The pieces of a run** carry the demand between its ends; once the stream has stopped, it
stands at `-1`. -/
lemma Run.mass (he : ExponentialLaw K G) {s s' : DemandStream K G} {vs : List (Visit K)}
    (hrun : Run s vs s') (h : OnWay k s) {x : K} (hx : s.position = .ok x) :
    ∃ y, s'.position = .ok y ∧ (vs.map Visit.mass).sum = s.expected y - s.expected x ∧
      (s.stillHavingRequests = true → s'.stillHavingRequests = false → y = -1) := by
  induction hrun generalizing x with
  | nil s =>
    refine ⟨x, hx, by simp, fun h0 h1 => ?_⟩
    rw [h0] at h1
    cases h1
  | @call s s' s'' vs ws t _ hcall hrest ih =>
    obtain ⟨hout, hway⟩ := h.outcome he hx hcall
    obtain ⟨y, hy, -⟩ := hway.position
    obtain ⟨z, hz, hsum, hend⟩ := ih hway hy
    refine ⟨z, hz, ?_, fun h0 h1 => ?_⟩
    · rw [hcall.sameBase.expected, hcall.sameBase.expected] at hsum
      calc ((vs ++ ws).map Visit.mass).sum
          = (vs.map Visit.mass).sum + (ws.map Visit.mass).sum := by
            rw [List.map_append, List.sum_append]
        _ = (s.expected y - s.expected x) + (s.expected z - s.expected y) := by
            rw [hcall.mass he h hx hy, hsum]
        _ = s.expected z - s.expected x := sub_add_sub_cancel' _ _ _
    · cases hout with
      | accepted _ _ _ _ _ h2 _ _ => exact hend (h2.trans h0) h1
      | stopped _ _ h2 h3 _ =>
        -- A stopped stream is not called again.
        cases hrest with
        | nil =>
          rw [h3] at hz
          cases hz
          rfl
        | call hstill _ _ =>
          have hstill' : s'.stillHavingRequests = true := hstill
          rw [h2] at hstill'
          cases hstill'

end DemandStream

/-! ### The whole demand -/

/-- The probabilities of a pattern rise strictly, from zero to one. -/
structure ContinuousAttributeLite.Rises (a : ContinuousAttributeLite K K) : Prop where
  pos : 0 < a.size
  first : a.c 0 = 0
  last : a.c (a.size - 1) = 1
  rising : ∀ i, i + 1 < a.size → a.c i < a.c (i + 1)

lemma ContinuousAttributeLite.Rises.increasing {a : ContinuousAttributeLite K K} (h : a.Rises) :
    Increasing a.c (a.size - 1) := fun i hi => h.rising i (by omega)

lemma ContinuousAttributeLite.Rises.nonneg {a : ContinuousAttributeLite K K} (h : a.Rises) :
    ∀ i < a.size, 0 ≤ a.c i := by
  intro i hi
  rw [← h.first]
  exact h.increasing.le (Nat.zero_le _) (by omega)

lemma ContinuousAttributeLite.Rises.one_lt {a : ContinuousAttributeLite K K} (h : a.Rises) :
    1 < a.size := by
  by_contra hc
  have hlast := h.last
  have hpos := h.pos
  rw [show a.size - 1 = 0 by omega, h.first] at hlast
  exact zero_ne_one hlast

/-- The straight line between two knots rises. -/
lemma ContinuousAttributeLite.rises_pair {v₀ v₁ : K} (h : v₀ < v₁) :
    (ContinuousAttributeLite.init (OMap.ofPairs [(v₀, (0 : K)), (v₁, 1)])).Rises := by
  obtain ⟨hsize, -, -, hc0, hc1⟩ := ContinuousAttributeLite.init_pair h 0 1
  refine ⟨by omega, hc0, by rw [hsize]; exact hc1, fun i hi => ?_⟩
  obtain rfl : i = 0 := by omega
  rw [hc0, hc1]
  exact one_pos

/-- The walk on a rising pattern starts at the first knot. -/
lemma ContinuousAttributeLite.Rises.startKnot {a : ContinuousAttributeLite K K} (h : a.Rises) :
    a.startKnot = 0 := by
  have hc := h.rising 0 h.one_lt
  rw [h.first] at hc
  exact Nat.le_zero.mp (ContinuousAttributeLite.startKnot_le hc)

lemma ContinuousAttributeLite.Rises.leads {a : ContinuousAttributeLite K K} (h : a.Rises) {k : ℕ}
    (hk : k < a.size) (h1 : a.v k = -1) : a.Leads k :=
  ⟨hk, h1, by rw [h.startKnot]; exact Nat.zero_le k, fun i _ hi => h.rising i (by omega)⟩

section Real

open DemandStream

variable {G : Type} [RandomGeneration ℝ G]

/-- **The demand walked**: over a complete run the rates times the lengths add up to the mean
times the cumulative probability of the pattern at `-1`. -/
theorem run_mass {s s' : DemandStream ℝ G} (he : ExponentialLaw ℝ G) (hs : Started s)
    (hr : s.demandCharacteristics.arrivalPattern.Rises) {k : ℕ}
    (hk : k < s.demandCharacteristics.arrivalPattern.size)
    (h1 : s.demandCharacteristics.arrivalPattern.v k = -1)
    (hm : 0 < s.demandDistribution.meanNumberOfRequests) {vs : List (Visit ℝ)}
    (hrun : Run s vs s') (hend : s'.stillHavingRequestsToBeGenerated .POI_PRO = false) :
    (vs.map Visit.mass).sum =
      s.demandDistribution.meanNumberOfRequests * s.demandCharacteristics.arrivalPattern.c k := by
  set a := s.demandCharacteristics.arrivalPattern with ha
  have hway : OnWay k s := .of_first (hr.leads hk h1) hr.nonneg hm hs.fresh.first
  have hx : s.position = .ok (a.v 0) := by
    rw [position_first hs.fresh.first, ← hr.startKnot]
    exact ContinuousAttributeLite.getValue_zero hr.pos hr.nonneg
  obtain ⟨y, -, hsum, hy⟩ := hrun.mass he hway hx
  have hy1 : y = a.v k := by
    rw [h1]
    exact hy hs.fresh.still hend
  have hk' : s.expected y = s.demandDistribution.meanNumberOfRequests * a.c k := by
    unfold expected ContinuousAttributeLite.cumulative
    rw [hy1, ← ha, interp_knot a.increasing_v (by omega)]
  have h0' : s.expected (a.v 0) = 0 := by
    unfold expected ContinuousAttributeLite.cumulative
    rw [← ha, interp_knot a.increasing_v (Nat.zero_le _), hr.first, mul_zero]
  calc (vs.map Visit.mass).sum = s.expected y - s.expected (a.v 0) := hsum
    _ = s.demandDistribution.meanNumberOfRequests * a.c k := by rw [hk', h0', sub_zero]

/-- A pattern with an interval after `-1`, walked with variates that pass every knot. -/
noncomputable def massSample : DemandStream ℝ (Tape ℝ) :=
  sampleStream [((-2 : ℝ), (0 : ℝ)), (-1, 9 / 10), (0, 1)] 0 0 1
    (Tape.const 0 5 0 Tape.zero_mem (by simp))

lemma massSample_pattern :
    let a := massSample.demandCharacteristics.arrivalPattern
    a.size = 3 ∧ a.v 0 = -2 ∧ a.v 1 = -1 ∧ a.c 0 = 0 ∧ a.c 1 = 9 / 10 ∧ a.c 2 = 1 := by
  have h : ([((-2 : ℝ), (0 : ℝ)), (-1, 9 / 10), (0, 1)].map Prod.fst).Pairwise (· < ·) := by
    norm_num
  exact ⟨ContinuousAttributeLite.init_size h, ContinuousAttributeLite.init_v h 0,
    ContinuousAttributeLite.init_v h 1, ContinuousAttributeLite.init_c h 0,
    ContinuousAttributeLite.init_c h 1, ContinuousAttributeLite.init_c h 2⟩

lemma massSample_rises : massSample.demandCharacteristics.arrivalPattern.Rises := by
  obtain ⟨hsize, -, -, hc0, hc1, hc2⟩ := massSample_pattern
  refine ⟨by omega, hc0, by rw [hsize]; exact hc2, fun i hi => ?_⟩
  obtain rfl | rfl : i = 0 ∨ i = 1 := by omega
  · rw [hc0, hc1]
    norm_num
  · rw [hc1, hc2]
    norm_num

lemma massSample_run : ∃ vs s', Run massSample vs s' ∧
    s'.stillHavingRequestsToBeGenerated .POI_PRO = false ∧ (vs.map Visit.mass).sum = 9 / 10 := by
  obtain ⟨hsize, hv0, hv1, hc0, hc1, -⟩ := massSample_pattern
  set s := massSample with hs
  set a := s.demandCharacteristics.arrivalPattern with ha
  have hp : s.position = .ok (a.v 0) := by
    rw [position_first rfl, ← massSample_rises.startKnot]
    exact ContinuousAttributeLite.getValue_zero massSample_rises.pos massSample_rises.nonneg
  have hr : s.rateOf 0 = 9 / 10 := by
    change slopeOf a.v a.c 0 * 1 = 9 / 10
    rw [slopeOf, hv0, hv1, hc0, hc1]
    norm_num
  have hlarge : a.v 1 ≤ a.v 0 + s.exponentialOf (s.rateOf 0) := by
    change a.v 1 ≤ a.v 0 + 5
    rw [hv0, hv1]
    norm_num
  have hcross := visit_cross (i := 0) hp (by change 1 < a.size; omega) le_rfl
    (by change a.v 0 < a.v 1; rw [hv0, hv1]; norm_num) (by rw [hv0]; norm_num)
    (by rw [hr]; norm_num) hlarge
  have hstop := visit_stop (s := s.drawn (s.rateOf 0) (a.v 1)) (by rw [position_drawn, hv1])
  refine ⟨_, _, .call rfl (.cross hcross (.stop hstop)) (.nil _), rfl, ?_⟩
  simp only [List.append_nil, List.map_cons, List.map_nil, List.sum_cons, List.sum_nil, Visit.mass]
  change s.rateOf 0 * (a.v 1 - a.v 0) + (0 + 0) = 9 / 10
  rw [hr, hv0, hv1]
  norm_num

theorem run_mass_sample :
    ∃ vs s', Run massSample vs s' ∧ (vs.map Visit.mass).sum = 1 * (9 / 10) := by
  obtain ⟨vs, s', hrun, hend, -⟩ := massSample_run
  obtain ⟨hsize, -, hv1, -, hc1, -⟩ := massSample_pattern
  refine ⟨vs, s', hrun, ?_⟩
  rw [← hc1]
  exact run_mass (s := massSample) Tape.positiveExponentialLaw.nonneg sampleStream_started
    massSample_rises (by omega) hv1 one_pos hrun hend

/-- The walk of the sample leaves out the tenth of the demand that arrives on the last day. -/
theorem run_mass_short :
    ∃ vs s', Run massSample vs s' ∧ Started massSample ∧
      massSample.demandCharacteristics.arrivalPattern.Rises ∧
      (∃ k < massSample.demandCharacteristics.arrivalPattern.size,
        massSample.demandCharacteristics.arrivalPattern.v k = -1) ∧
      ExponentialLaw ℝ (Tape ℝ) ∧ 0 < massSample.demandDistribution.meanNumberOfRequests ∧
      s'.stillHavingRequestsToBeGenerated .POI_PRO = false ∧
      (vs.map Visit.mass).sum ≠ massSample.demandDistribution.meanNumberOfRequests := by
  obtain ⟨vs, s', hrun, hend, hsum⟩ := massSample_run
  obtain ⟨hsize, -, hv1, -⟩ := massSample_pattern
  refine ⟨vs, s', hrun, sampleStream_started, massSample_rises, ⟨1, by omega, hv1⟩,
    Tape.positiveExponentialLaw.nonneg, one_pos, hend, ?_⟩
  rw [hsum]
  change (9 / 10 : ℝ) ≠ 1
  norm_num

end Real

end Trademgen
