import Trademgen.PoissonRun
import Trademgen.PoissonMass

/-!
Consecutive requests of a stream, to the millisecond.

A date-time is the number of whole milliseconds before an offset, and one more: two requests differ
only if a whole millisecond lies between their offsets. For each method that is a condition on the
stream as the next call finds it, and on the variates that it draws.
-/

set_option linter.unusedSectionVars false

namespace Trademgen

open Faulting OrderedMap Knots DemandStream

/-! ### Whole milliseconds -/

section Milliseconds

variable {K : Type} [Field K] [LinearOrder K] [IsStrictOrderedRing K] [FloorRing K] [Libm K]

/-- A number of milliseconds, in days. -/
def days (n : ℤ) : K := n / 86400000

/-- The whole milliseconds before a number of days. -/
def milliseconds (d : K) : ℤ := ⌊d * 86400000⌋

lemma le_milliseconds {n : ℤ} {d : K} : n ≤ milliseconds d ↔ days n ≤ d := by
  have h : (0 : K) < 86400000 := by norm_num
  unfold milliseconds days
  rw [Int.le_floor, div_le_iff₀ h]

lemma milliseconds_lt {n : ℤ} {d : K} : milliseconds d < n ↔ d < days n := by
  rw [← not_le, le_milliseconds, not_le]

/-- From any time on, an offset is later than another by some milliseconds when so many of them
are whole. -/
lemma convertFloatIntoDuration_add_le (t : DateTime) {n : ℤ} {d d' : K} :
    t + convertFloatIntoDuration d + DateTime.millisec n ≤ t + convertFloatIntoDuration d' ↔
      days (milliseconds d + n) ≤ d' := by
  rw [← le_milliseconds, convertFloatIntoDuration_eq, convertFloatIntoDuration_eq, add_assoc,
    add_le_add_iff_left]
  unfold DateTime.millisec milliseconds
  refine ⟨fun h => ?_, fun h => ?_⟩
  · linarith
  · linarith

/-- Some whole millisecond lies after one number of days, and not after another. -/
lemma exists_days {d d' : K} :
    (∃ n, d < days n ∧ days n ≤ d') ↔ days (milliseconds d + 1) ≤ d' := by
  refine ⟨?_, fun h => ?_⟩
  · rintro ⟨n, h0, h1⟩
    rw [← milliseconds_lt] at h0
    rw [← le_milliseconds] at h1 ⊢
    omega
  · exact ⟨_, milliseconds_lt.mp (Int.lt_succ _), h⟩

end Milliseconds

/-! ### The inverse of the cumulative function -/

section Quantile

variable {K : Type} [Field K] [LinearOrder K] [IsStrictOrderedRing K] [FloorRing K] [Libm K]
  {a : ContinuousAttributeLite K K}

/-- On a rising pattern the value at a probability is where the cumulative function takes it. -/
lemma ContinuousAttributeLite.Rises.cumulative_getValue (h : a.Rises) {p d : K} (h0 : 0 ≤ p)
    (h1 : p < 1) (hd : a.getValue p = .ok d) : a.v 0 ≤ d ∧ a.cumulative d = p := by
  have hp0 : a.c 0 ≤ p := by rwa [h.first]
  have hp1 : p < a.c (a.size - 1) := by rwa [h.last]
  obtain ⟨i, hi, hidx⟩ := a.exists_piece hp0 ⟨a.size - 1, Nat.pred_lt h.pos.ne', hp1⟩
  obtain ⟨x, hx, hix, -, hF⟩ := a.getValue_inside hi hidx
  rw [hd] at hx
  cases hx
  exact ⟨(a.v_le (Nat.zero_le i) (by omega)).trans hix, hF⟩

/-- The cumulative function exceeds a probability after its value, and not before. -/
lemma ContinuousAttributeLite.Rises.cumulative_le_iff (h : a.Rises) {p d x : K} (h0 : 0 ≤ p)
    (h1 : p < 1) (hd : a.getValue p = .ok d) : a.cumulative x ≤ p ↔ x ≤ d := by
  obtain ⟨hvd, hpd⟩ := h.cumulative_getValue h0 h1 hd
  have hsize : 0 < a.size - 1 := Nat.sub_pos_of_lt h.one_lt
  rcases lt_or_ge x (a.v 0) with hx | hx
  · have hzero : a.cumulative x = 0 := (interp_of_lt a.increasing_v hx).trans h.first
    rw [hzero]
    exact ⟨fun _ => hx.le.trans hvd, fun _ => h0⟩
  · have hmono := interp_strictMonoOn hsize a.increasing_v h.increasing
    rw [← hpd]
    exact hmono.le_iff_le hx hvd

end Quantile

/-! ### The walk up to an offset -/

namespace DemandStream

variable {K G : Type} [Field K] [LinearOrder K] [IsStrictOrderedRing K] [FloorRing K] [Libm K]
  [RandomGeneration K G]

/-- The walk from `x` generates no request before `c`: the exponential variates reach `c`, from one
knot to the next. The request that ends the walk counts as one day after departure. -/
inductive ClearTo (c : K) : DemandStream K G → K → Prop
  | past {s x} : c ≤ x → ClearTo c s x
  | stop {s x} : x = -1 → c ≤ 1 → ClearTo c s x
  | within {s x b q} : x ≠ -1 →
      s.demandCharacteristics.arrivalPattern.getUpperBound x = .ok b →
      s.demandCharacteristics.arrivalPattern.getDerivativeValue x = .ok q →
      c ≤ b → c ≤ x + s.exponentialOf (s.rateFrom q) → ClearTo c s x
  | across {s x b q} : x ≠ -1 →
      s.demandCharacteristics.arrivalPattern.getUpperBound x = .ok b →
      s.demandCharacteristics.arrivalPattern.getDerivativeValue x = .ok q →
      b ≤ x + s.exponentialOf (s.rateFrom q) → ClearTo c (s.drawn (s.rateFrom q) b) b →
      ClearTo c s x

section ClearTo

variable {s : DemandStream K G} {x b q c : K}

lemma clearTo_end : ClearTo c s (-1) ↔ c ≤ 1 := by
  refine ⟨fun h => ?_, .stop rfl⟩
  cases h with
  | past h => exact h.trans (by norm_num)
  | stop _ h => exact h
  | within h _ _ _ _ => exact absurd rfl h
  | across h _ _ _ _ => exact absurd rfl h

/-- Where the variate stays inside the interval, the walk is clear up to it. -/
lemma clearTo_within (hne : x ≠ -1)
    (hb : s.demandCharacteristics.arrivalPattern.getUpperBound x = .ok b)
    (hq : s.demandCharacteristics.arrivalPattern.getDerivativeValue x = .ok q)
    (h0 : 0 ≤ s.exponentialOf (s.rateFrom q)) (h : x + s.exponentialOf (s.rateFrom q) < b) :
    ClearTo c s x ↔ c ≤ x + s.exponentialOf (s.rateFrom q) := by
  refine ⟨fun hc => ?_, fun hc => .within hne hb hq (hc.trans h.le) hc⟩
  cases hc with
  | past hc => exact hc.trans (le_add_of_nonneg_right h0)
  | stop hc _ => exact absurd hc hne
  | within _ _ hq' _ hc =>
    cases hq.symm.trans hq'
    exact hc
  | across _ hb' hq' hc _ =>
    cases hb.symm.trans hb'
    cases hq.symm.trans hq'
    exact absurd h (not_lt.mpr hc)

/-- Where it does not, the walk is clear up to the end of the interval, and on from there. -/
lemma clearTo_across (hne : x ≠ -1)
    (hb : s.demandCharacteristics.arrivalPattern.getUpperBound x = .ok b)
    (hq : s.demandCharacteristics.arrivalPattern.getDerivativeValue x = .ok q)
    (hxb : x ≤ b) (h : b ≤ x + s.exponentialOf (s.rateFrom q)) :
    ClearTo c s x ↔ ClearTo c (s.drawn (s.rateFrom q) b) b := by
  refine ⟨fun hc => ?_, .across hne hb hq h⟩
  cases hc with
  | past hc => exact .past (hc.trans hxb)
  | stop hc _ => exact absurd hc hne
  | within _ hb' _ hc _ =>
    cases hb.symm.trans hb'
    exact .past hc
  | across _ hb' hq' _ hc =>
    cases hb.symm.trans hb'
    cases hq.symm.trans hq'
    exact hc

end ClearTo

/-- Where a call lands: at the end of the walk, a day after departure, or at the offset of the
request accepted. -/
inductive Lands (s s' : DemandStream K G) : K → Prop
  | stopped (still : s'.stillHavingRequests = false) (first : s'.firstDateTimeRequest = false)
      (last : s'.dateTimeLastRequest = -1) : Lands s s' 1
  | accepted (o : K) (still : s'.stillHavingRequests = s.stillHavingRequests)
      (first : s'.firstDateTimeRequest = false) (last : s'.dateTimeLastRequest = o) : Lands s s' o

/-- **A call** lands no earlier than it starts, and at or after whatever it is clear to. -/
theorem Call.lands (he : ExponentialLaw K G) {s s' : DemandStream K G} {vs : List (Visit K)}
    {t : DateTime} (hcall : Call s vs t s') {x : K} (hx : s.position = .ok x) :
    ∃ o, t = s.departureDateTime + convertFloatIntoDuration o ∧ Lands s s' o ∧ x ≤ o ∧
      ∀ c, ClearTo c s x ↔ c ≤ o := by
  induction hcall generalizing x with
  | @stop s s' t hv =>
    obtain ⟨z, hz, hin⟩ := visit_cases hv
    cases hx.symm.trans hz
    cases hin with
    | stop h =>
      subst h
      exact ⟨1, rfl, .stopped rfl rfl rfl, by norm_num, fun c => clearTo_end⟩
  | @accept s s' t r y y' hv =>
    obtain ⟨z, hz, hin⟩ := visit_cases hv
    cases hx.symm.trans hz
    cases hin with
    | accept hne hb hq hr h =>
      have h0 := he _ s.requestDateTimeRandomGenerator hr
      exact ⟨_, rfl, .accepted _ rfl rfl rfl, le_add_of_nonneg_right h0,
        fun c => clearTo_within hne hb hq h0 h⟩
  | @cross s s' s'' r y y' vs t hv _ ih =>
    obtain ⟨z, hz, hin⟩ := visit_cases hv
    cases hx.symm.trans hz
    cases hin with
    | cross hne hb hq hr h =>
      obtain ⟨o, ht, hland, hbo, hclear⟩ := ih (position_drawn s _ _)
      obtain ⟨j, -, hj, hxj⟩ :=
        s.demandCharacteristics.arrivalPattern.exists_knot_of_getUpperBound hb
      rw [hj] at hxj
      refine ⟨o, ht, ?_, hxj.le.trans hbo, fun c => ?_⟩
      · cases hland with
        | stopped still first last => exact .stopped still first last
        | accepted o still first last => exact .accepted o still first last
      · rw [clearTo_across hne hb hq hxj.le h, hclear]

/-! ### Requests one after the other -/

/-- A request, with the stream before and after the call that generated it. -/
structure Generated (K G : Type) [LinearOrder K] where
  before : DemandStream K G
  request : BookingRequestStruct K
  after : DemandStream K G

/-- The requests that the calls on a stream generated, whatever the shared generator. A call that
throws generates none, and leaves its state behind. -/
inductive Requests (m : DemandGenerationMethod) (s₀ : DemandStream K G) :
    List (Generated K G) → DemandStream K G → Prop
  | start : Requests m s₀ [] s₀
  | next {es s s' g g' r} : Requests m s₀ es s → generateNextRequest g m s = .ok (r, g') s' →
      Requests m s₀ (es ++ [⟨s, r, s'⟩]) s'
  | thrown {es s s' g e} : Requests m s₀ es s → generateNextRequest g m s = .error e s' →
      Requests m s₀ es s'

/-- The offset of the last request of a Poisson stream. -/
def lastOffset (s : DemandStream K G) : K :=
  if s.stillHavingRequests then s.dateTimeLastRequest else 1

/-- A whole millisecond lies between the last request, after which the stream is `s`, and the next
one, before which it is `s'`: the cumulative probability of the pattern at that millisecond is
above the last one and not above the next one, or the walk generates no request before it. -/
def Clear : DemandGenerationMethod → DemandStream K G → DemandStream K G → Prop
  | .STA_ORD, s, s' => ∃ n,
      s.randomGenerationContext.cumulativeProbabilitySoFar
        < s'.demandCharacteristics.arrivalPattern.cumulative (days n) ∧
      s'.demandCharacteristics.arrivalPattern.cumulative (days n) ≤ s'.nextProbability
  | .POI_PRO, s, s' => ∃ x, s'.position = .ok x ∧
      ClearTo (days (milliseconds s.lastOffset + 1)) s' x

/-! ### What every call preserves -/

/-- The cumulative probability so far leaves something for the requests to come. -/
def Partial (s : DemandStream K G) : Prop :=
  0 ≤ s.randomGenerationContext.cumulativeProbabilitySoFar ∧
    s.randomGenerationContext.cumulativeProbabilitySoFar < 1

/-- A stream with no requests left stands at the end of its walk. -/
def Halts (s : DemandStream K G) : Prop :=
  s.stillHavingRequests = false → s.firstDateTimeRequest = false ∧ s.dateTimeLastRequest = -1

lemma position_of_first {s : DemandStream K G} (h : s.firstDateTimeRequest = false) :
    s.position = .ok s.dateTimeLastRequest := by
  unfold position
  rw [h]
  rfl

lemma stillHaving_walk {s : DemandStream K G} (h : s.dateTimeLastRequest ≠ -1) :
    (stateOf s.walk).stillHavingRequests = s.stillHavingRequests := by
  unfold walk
  dsimp only
  rw [if_neg h]
  repeat' split
  all_goals rfl

lemma first_walk (s : DemandStream K G) :
    (stateOf s.walk).firstDateTimeRequest = s.firstDateTimeRequest := by
  unfold walk
  dsimp only
  repeat' split
  all_goals rfl

lemma halts_visit {s : DemandStream K G} (h : Halts s) :
    Halts (stateOf (visitPoissonProcess s)) := by
  rw [visitPoissonProcess_eq]
  cases hp : s.position with
  | error e => exact h
  | ok x =>
    dsimp only
    intro hc
    by_cases h1 : x = -1
    · subst h1
      refine ⟨first_walk _, ?_⟩
      unfold walk at_
      simp
    · rw [stillHaving_walk h1] at hc
      obtain ⟨hfirst, hlast⟩ := h hc
      rw [position_of_first hfirst, hlast] at hp
      cases hp
      exact absurd rfl h1

/-- What every visit preserves is preserved by the recursion. -/
lemma poissonProcess_preserves {P : DemandStream K G → Prop}
    (hP : ∀ s, P s → P (stateOf (visitPoissonProcess s))) (n : ℕ) {s : DemandStream K G} (h : P s) :
    P (stateOf (poissonProcess n s)) := by
  induction n generalizing s with
  | zero => exact h
  | succ n ih =>
    have hv := hP s h
    rw [poissonProcess_succ]
    cases hvisit : visitPoissonProcess s with
    | error e s' => rwa [hvisit] at hv
    | ok v s' =>
      rw [hvisit] at hv
      cases v with
      | stop t => exact hv
      | accept t r x y => exact hv
      | cross r x y => exact ih hv

/-! ### One call -/

/-- A call on a stream that halts leaves the offset of its request. -/
lemma Call.lastOffset (he : ExponentialLaw K G) {s s' : DemandStream K G} {vs : List (Visit K)}
    {t : DateTime} (hcall : Call s vs t s') (h : Halts s) {x : K} (hx : s.position = .ok x) :
    t = s.departureDateTime + convertFloatIntoDuration s'.lastOffset ∧
      ∀ c, ClearTo c s x ↔ c ≤ s'.lastOffset := by
  obtain ⟨o, ht, hland, -, hclear⟩ := hcall.lands he hx
  suffices hs : s'.lastOffset = o by
    rw [hs]
    exact ⟨ht, hclear⟩
  unfold DemandStream.lastOffset
  cases hland with
  | stopped still first last =>
    rw [still]
    rfl
  | accepted o still first last =>
    rw [still, last]
    cases hstill : s.stillHavingRequests with
    | true => rfl
    | false =>
      -- A stream with no requests left stands at the end of its walk, and lands where that does.
      obtain ⟨hfirst, hlast⟩ := h hstill
      rw [position_of_first hfirst, hlast] at hx
      cases hx
      refine le_antisymm ((hclear 1).mp (.stop rfl le_rfl)) ?_
      cases (hclear o).mpr le_rfl with
      | past hle => exact hle.trans (by norm_num)
      | stop _ hle => exact hle
      | within hne _ _ _ _ => exact absurd rfl hne
      | across hne _ _ _ _ => exact absurd rfl hne

/-! ### The run -/

section Real

variable {G : Type} [RandomGeneration ℝ G] {m : DemandGenerationMethod}

/-- The next probability takes a part of what is left, and not all of it. -/
lemma nextProbability_mem (hu : UniformLaw ℝ G) {s : DemandStream ℝ G} (h : Partial s) :
    s.randomGenerationContext.cumulativeProbabilitySoFar < s.nextProbability ∧
      s.nextProbability < 1 := by
  obtain ⟨hpos, hle⟩ := orderFactor_mem (m := s.remaining)
    (hu (advance s.requestDateTimeRandomGenerator 0)).2
  have hleft := sub_pos.mpr h.2
  have h0 := mul_pos hleft hpos
  have h1 := mul_lt_of_lt_one_right hleft (hle.trans_lt (by norm_num))
  have hnext : s.nextProbability = 1 - (1 - s.randomGenerationContext.cumulativeProbabilitySoFar)
      * orderFactor s.remaining (variate s.requestDateTimeRandomGenerator 0) := rfl
  rw [hnext]
  unfold variate
  exact ⟨by linarith, by linarith⟩

/-- What is known of a stream between two calls. -/
def Kept : DemandGenerationMethod → DemandStream ℝ G → Prop
  | .STA_ORD, s => Partial s
  | .POI_PRO, s => Halts s

lemma Kept.next (hu : UniformLaw ℝ G) {s : DemandStream ℝ G} (h : Kept m s) (g : G) :
    Kept m (stateOf (generateNextRequest g m s)) := by
  cases m with
  | STA_ORD =>
    refine generateNextRequest_preserves (P := Partial) h ?_ (fun _ _ h₁ => h₁) g
    obtain ⟨h0, h1⟩ := nextProbability_mem hu h
    simp only [generateTimeOfRequest]
    rw [generateTimeOfRequestStatisticsOrder_eq]
    split_ifs
    · cases s.demandCharacteristics.arrivalPattern.getValue s.nextProbability with
      | ok d => exact ⟨h.1.trans h0.le, h1⟩
      | error e => exact h
    · exact h
  | POI_PRO =>
    exact generateNextRequest_preserves (P := Halts) (m := .POI_PRO) h
      (poissonProcess_preserves (fun _ => halts_visit) _ h) (fun _ _ h₁ => h₁) g

/-- What a request leaves in the stream that the next one is compared with. -/
inductive Left (t : DateTime) : DemandGenerationMethod → DemandStream ℝ G → Prop
  | statisticsOrder {s d} : Partial s →
      s.demandCharacteristics.arrivalPattern.getValue
        s.randomGenerationContext.cumulativeProbabilitySoFar = .ok d →
      t = s.departureDateTime + convertFloatIntoDuration d → Left t .STA_ORD s
  | poissonProcess {s} : t = s.departureDateTime + convertFloatIntoDuration s.lastOffset →
      Left t .POI_PRO s

lemma Left.of_next (hu : UniformLaw ℝ G) (he : ExponentialLaw ℝ G) {s s' : DemandStream ℝ G}
    {g g' : G} {r : BookingRequestStruct ℝ} (h : Kept m s)
    (hr : generateNextRequest g m s = .ok (r, g') s') : Left r.requestDateTime m s' := by
  have hbase := sameBase_next g m s
  rw [hr, stateOf_ok] at hbase
  obtain ⟨s₁, g₁, ht, rfl⟩ := generateNextRequest_time hr
  cases m with
  | STA_ORD =>
    obtain ⟨d, hd, htime, hcum, -⟩ := generateTimeOfRequestStatisticsOrder_ok ht
    obtain ⟨h0, h1⟩ := nextProbability_mem hu h
    have hcum' : (s₁.withCharacteristics g₁).randomGenerationContext.cumulativeProbabilitySoFar
        = s.nextProbability := hcum
    refine .statisticsOrder ?_ (d := d) ?_ ?_
    · unfold Partial
      rw [hcum']
      exact ⟨h.1.trans h0.le, h1⟩
    · rw [hcum', hbase.characteristics, hd]
    · rw [hbase.departureDateTime, htime]
  | POI_PRO =>
    obtain ⟨vs, hcall⟩ := generateTimeOfRequestPoissonProcess_eq_ok.mp ht
    obtain ⟨x, hx⟩ := hcall.exists_position
    obtain ⟨htime, -⟩ := hcall.lastOffset he h hx
    exact .poissonProcess (by rw [hbase.departureDateTime, htime]; rfl)

/-- **Two consecutive requests** are a millisecond apart when the stream was clear. -/
theorem Left.later_iff (hu : UniformLaw ℝ G) (he : ExponentialLaw ℝ G) {s s' s'' : DemandStream ℝ G}
    {t : DateTime} (hleft : Left t m s) (hbase : SameBase s s') (h : Kept m s')
    (hrises : s'.demandCharacteristics.arrivalPattern.Rises) {g g' : G} {r : BookingRequestStruct ℝ}
    (hr : generateNextRequest g m s' = .ok (r, g') s'') :
    t + DateTime.millisec 1 ≤ r.requestDateTime ↔ Clear m s s' := by
  obtain ⟨s₁, g₁, ht, rfl⟩ := generateNextRequest_time hr
  cases hleft with
  | statisticsOrder hpart hd htime =>
    obtain ⟨d', hd', htime', -⟩ := generateTimeOfRequestStatisticsOrder_ok ht
    obtain ⟨h0, h1⟩ := nextProbability_mem hu h
    rw [← hbase.characteristics] at hd
    rw [htime, htime', ← hbase.departureDateTime, convertFloatIntoDuration_add_le, ← exists_days]
    unfold Clear
    refine exists_congr fun n => and_congr ?_ ?_
    · rw [← not_le, ← not_le, hrises.cumulative_le_iff hpart.1 hpart.2 hd]
    · rw [hrises.cumulative_le_iff (h.1.trans h0.le) h1 hd']
  | poissonProcess htime =>
    obtain ⟨vs, hcall⟩ := generateTimeOfRequestPoissonProcess_eq_ok.mp ht
    obtain ⟨x, hx⟩ := hcall.exists_position
    obtain ⟨htime', hclear⟩ := hcall.lastOffset he h hx
    rw [htime, htime', ← hbase.departureDateTime, convertFloatIntoDuration_add_le, ← hclear]
    unfold Clear
    refine ⟨fun hc => ?_, ?_⟩
    · exact ⟨x, hx, hc⟩
    · rintro ⟨x', hx', hc⟩
      cases hx.symm.trans hx'
      exact hc

lemma Kept.of_fresh {s : DemandStream ℝ G} (h : Fresh s) : Kept m s := by
  cases m with
  | STA_ORD =>
    have hzero : s.randomGenerationContext.cumulativeProbabilitySoFar = 0 := by rw [h.context]
    have hpart : Partial s := by
      unfold Partial
      rw [hzero]
      exact ⟨le_rfl, one_pos⟩
    exact hpart
  | POI_PRO =>
    intro hstill
    rw [h.still] at hstill
    cases hstill

/-- A run keeps what the next request is compared with. -/
lemma Requests.kept (hu : UniformLaw ℝ G) (he : ExponentialLaw ℝ G) {s₀ s : DemandStream ℝ G}
    (h₀ : Kept m s₀) {es : List (Generated ℝ G)} (h : Requests m s₀ es s) :
    Kept m s ∧ SameBase s₀ s ∧
      ∀ e ∈ es, Left e.request.requestDateTime m e.after ∧ SameBase s₀ e.after := by
  induction h with
  | start => exact ⟨h₀, (TimeOnly.refl s₀).sameBase, by simp⟩
  | @next es s s' g g' r _ hr ih =>
    obtain ⟨hkept, hbase, hes⟩ := ih
    have hkept' := hkept.next hu g
    have hbase' := hbase.trans (sameBase_next g m s)
    rw [hr, stateOf_ok] at hkept' hbase'
    refine ⟨hkept', hbase', fun e he' => ?_⟩
    rcases List.mem_append.mp he' with he' | he'
    · exact hes e he'
    · cases List.mem_singleton.mp he'
      exact ⟨.of_next hu he hkept hr, hbase'⟩
  | @thrown es s s' g e _ hr ih =>
    obtain ⟨hkept, hbase, hes⟩ := ih
    have hkept' := hkept.next hu g
    have hbase' := hbase.trans (sameBase_next g m s)
    rw [hr, stateOf_error] at hkept' hbase'
    exact ⟨hkept', hbase', hes⟩

noncomputable def lateTape (u : ℝ) (hu : 0 ≤ u ∧ u < 1) : Tape ℝ :=
  ⟨fun n => if n = 0 then 1 - 1e-6 else u, fun _ => 1, fun _ => 0,
    fun n => by split_ifs; norm_num; exact hu, by simp⟩

noncomputable def lateSample (u : ℝ) (hu : 0 ≤ u ∧ u < 1) : DemandStream ℝ (Tape ℝ) :=
  sampleStream [(-2, 0), (-1, 1)] 0 2 1 (lateTape u hu)

variable (u : ℝ) (hu : 0 ≤ u ∧ u < 1)

lemma lateSample_pattern :
    let a := (lateSample u hu).demandCharacteristics.arrivalPattern
    a.size = 2 ∧ a.v 0 = -2 ∧ a.v 1 = -1 ∧ a.c 0 = 0 ∧ a.c 1 = 1 :=
  ContinuousAttributeLite.init_pair (by norm_num) 0 1

lemma lateSample_rises : (lateSample u hu).demandCharacteristics.arrivalPattern.Rises :=
  ContinuousAttributeLite.rises_pair (by norm_num)

lemma lateSample_started : Started (lateSample u hu) := sampleStream_started

/-- The pattern is a straight line. -/
lemma lateSample_getValue {p : ℝ} (h0 : 0 ≤ p) (h1 : p < 1) :
    (lateSample u hu).demandCharacteristics.arrivalPattern.getValue p = .ok (p - 2) := by
  obtain ⟨hsize, hv0, hv1, hc0, hc1⟩ := lateSample_pattern u hu
  set a := (lateSample u hu).demandCharacteristics.arrivalPattern
  have hidx : firstAbove p a.cumulativeDistribution = 1 := by
    refine firstAbove_eq (d := 0) (by rw [a.length_cumulativeDistribution]; omega)
      (h1.trans_eq hc1.symm) fun j hj => ?_
    obtain rfl : j = 0 := by omega
    exact hc0.trans_le h0
  rw [ContinuousAttributeLite.getValue_between _ (i := 0) (by omega) hidx, hv0, hv1, hc0, hc1]
  congr 1
  ring

lemma lateSample_cumulative (x : ℝ) (h0 : -2 ≤ x) (h1 : x ≤ -1) :
    (lateSample u hu).demandCharacteristics.arrivalPattern.cumulative x = x + 2 := by
  obtain ⟨hsize, hv0, hv1, hc0, hc1⟩ := lateSample_pattern u hu
  unfold ContinuousAttributeLite.cumulative
  rw [hsize, interp_of_mem (i := 0) (by rw [← hsize]; exact ContinuousAttributeLite.increasing_v _)
    (by norm_num) (by rw [hv0]; exact h0) (by rw [hv1]; exact h1)]
  unfold slopeOf
  rw [hv0, hv1, hc0, hc1]
  ring

lemma lateSample_probability :
    (lateSample u hu).probabilityOf 0 = 999 / 1000 ∧
      (lateSample u hu).probabilityOf 1 = 1 - 1 / 1000 * min (1 - u) (1 - 1e-6) := by
  have htotal : (lateSample u hu).totalNumberOfRequestsToBeGenerated = 2 := sampleStream_total
  have h0 : orderFactor 2 (variate (lateSample u hu).requestDateTimeRandomGenerator 0)
      = 1 / 1000 := by
    have hsq : (1e-6 : ℝ) = (1 / 1000) ^ (2 : ℝ) := by norm_num
    have hpow : (1e-6 : ℝ) ^ (1 / ((2 : ℤ) : ℝ)) = 1 / 1000 := by
      calc (1e-6 : ℝ) ^ (1 / ((2 : ℤ) : ℝ)) = ((1 / 1000 : ℝ) ^ (2 : ℝ)) ^ (1 / ((2 : ℤ) : ℝ)) := by
            rw [hsq]
        _ = (1 / 1000 : ℝ) ^ (2 * (1 / ((2 : ℤ) : ℝ))) := (Real.rpow_mul (by norm_num) _ _).symm
        _ = 1 / 1000 := by norm_num
    change min ((1 - (1 - 1e-6 : ℝ)) ^ (1 / ((2 : ℤ) : ℝ))) (1 - 1e-6) = 1 / 1000
    rw [sub_sub_cancel, hpow]
    norm_num
  have h1 : orderFactor 1 (variate (lateSample u hu).requestDateTimeRandomGenerator 1)
      = min (1 - u) (1 - 1e-6) := by
    change min ((1 - u) ^ (1 / ((1 : ℤ) : ℝ))) (1 - 1e-6) = _
    norm_num
  have hfirst : complementAfter 2 (lateSample u hu).requestDateTimeRandomGenerator 1
      = (1 / 1000 : ℝ) := by
    rw [complementAfter_succ, complementAfter_zero, one_mul]
    exact h0
  have hsecond : complementAfter 2 (lateSample u hu).requestDateTimeRandomGenerator 2
      = 1 / 1000 * min (1 - u) (1 - 1e-6) := by
    rw [complementAfter_succ, hfirst]
    exact congrArg _ h1
  unfold probabilityOf
  rw [htotal, hfirst, hsecond]
  norm_num

/-- The two requests of the sample. -/
lemma lateSample_requests : ∃ r r',
    Requests .STA_ORD (lateSample u hu)
      [⟨(lateSample u hu).after 0, r, (lateSample u hu).after 1⟩,
        ⟨(lateSample u hu).after 1, r', (lateSample u hu).after 2⟩] ((lateSample u hu).after 2) ∧
      (lateSample u hu).IsRequest 0 r ∧ (lateSample u hu).IsRequest 1 r' := by
  have hsound : Sound (lateSample u hu) := sound_sample (by simp)
  have htotal : (lateSample u hu).totalNumberOfRequestsToBeGenerated = 2 := sampleStream_total
  obtain ⟨r, hr, hreq⟩ := hsound.generateNextRequest (k := 0) (by rw [htotal]; norm_num)
    (Tape.const 0 1 0 Tape.zero_mem Tape.one_pos)
  obtain ⟨r', hr', hreq'⟩ := hsound.generateNextRequest (k := 1) (by rw [htotal]; norm_num)
    (Tape.const 0 1 0 Tape.zero_mem Tape.one_pos)
  have hstart : Requests .STA_ORD (lateSample u hu) [] ((lateSample u hu).after 0) := by
    rw [(lateSample_started u hu).fresh.after_zero]
    exact .start
  exact ⟨r, r', .next (.next hstart hr) hr', hreq, hreq'⟩

/-- With a variate of one half or more the stream is clear: the millisecond half-way lies
between. -/
lemma lateSample_clear (h : 1 / 2 ≤ u) :
    Clear .STA_ORD ((lateSample u hu).after 1) ((lateSample u hu).after 1) := by
  obtain ⟨hp0, hp1⟩ := lateSample_probability u hu
  have hcum : (lateSample u hu).demandCharacteristics.arrivalPattern.cumulative (days (-86443200))
      = 9995 / 10000 := by
    rw [lateSample_cumulative u hu _ (by norm_num [days]) (by norm_num [days])]
    norm_num [days]
  refine ⟨-86443200, ?_, ?_⟩
  · rw [cumulativeProbability_after, hp0]
    exact lt_of_lt_of_eq (by norm_num) hcum.symm
  · have hmin : min (1 - u) (1 - 1e-6) ≤ 1 / 2 := (min_le_left _ _).trans (by linarith)
    rw [nextProbability_after, hp1]
    refine hcum.trans_le ?_
    linarith

end Real

end DemandStream

end Trademgen
