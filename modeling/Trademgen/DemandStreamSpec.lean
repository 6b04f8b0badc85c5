import Trademgen.DemandStream
import Trademgen.Lib.Faulting

/-!
What the methods of a demand stream do, once for each method.

The draws of the characteristics and the draw of the time work on different parts of the
stream. A request takes nine variates of the characteristics generator, whatever the method.
-/

set_option linter.unusedSectionVars false

namespace Trademgen

open Faulting OrderedMap

namespace DemandStream

section Parts

variable {K G : Type} [LinearOrder K]

/-! ### The parts of a stream -/

/-- The stream with the state of the characteristics generator replaced. -/
def withCharacteristics (s : DemandStream K G) (g : G) : DemandStream K G :=
  { s with demandCharacteristicsRandomGenerator := g }

/-- The stream with the part replaced that the time of a request is drawn from. -/
def withTime (s : DemandStream K G) (c : RandomGenerationContext K) (g : G) (still first : Bool)
    (last : K) : DemandStream K G :=
  { s with
    randomGenerationContext := c
    requestDateTimeRandomGenerator := g
    stillHavingRequests := still
    firstDateTimeRequest := first
    dateTimeLastRequest := last }

/-- The streams differ only in the part the time of a request is drawn from. -/
def TimeOnly (s s' : DemandStream K G) : Prop :=
  s' = s.withTime s'.randomGenerationContext s'.requestDateTimeRandomGenerator
    s'.stillHavingRequests s'.firstDateTimeRequest s'.dateTimeLastRequest

lemma TimeOnly.refl (s : DemandStream K G) : TimeOnly s s := rfl

lemma TimeOnly.trans {s s' s'' : DemandStream K G} (h : TimeOnly s s') (h' : TimeOnly s' s'') :
    TimeOnly s s'' := by
  unfold TimeOnly at h h' ⊢
  rw [h] at h'
  exact h'

lemma TimeOnly.key {s s' : DemandStream K G} (h : TimeOnly s s') : s'.key = s.key := by rw [h]; rfl
lemma TimeOnly.characteristics {s s' : DemandStream K G} (h : TimeOnly s s') :
    s'.demandCharacteristics = s.demandCharacteristics := by rw [h]; rfl
lemma TimeOnly.distribution {s s' : DemandStream K G} (h : TimeOnly s s') :
    s'.demandDistribution = s.demandDistribution := by rw [h]; rfl
lemma TimeOnly.total {s s' : DemandStream K G} (h : TimeOnly s s') :
    s'.totalNumberOfRequestsToBeGenerated = s.totalNumberOfRequestsToBeGenerated := by rw [h]; rfl
lemma TimeOnly.generator {s s' : DemandStream K G} (h : TimeOnly s s') :
    s'.demandCharacteristicsRandomGenerator = s.demandCharacteristicsRandomGenerator := by
  rw [h]; rfl

end Parts

/-! ### Days and milliseconds -/

section Durations

variable {K : Type} [Field K] [LinearOrder K] [FloorRing K] [IsStrictOrderedRing K]

/-- The duration of a number of days: one millisecond more than the whole ones. -/
lemma convertFloatIntoDuration_eq (d : K) :
    convertFloatIntoDuration d = DateTime.millisec (⌊d * 86400000⌋ + 1) := by
  have hms : (d * 86400 - (⌊d * 86400⌋ : K)) * 1000
      = d * 86400000 - ((⌊d * 86400⌋ * 1000 : ℤ) : K) := by
    push_cast
    ring
  unfold convertFloatIntoDuration
  dsimp only
  rw [hms, Int.floor_sub_intCast]
  unfold DateTime.seconds DateTime.millisec
  ring

lemma millisec_mono {n n' : ℤ} (h : n ≤ n') : DateTime.millisec n ≤ DateTime.millisec n' :=
  Int.mul_le_mul_of_nonneg_right h (by norm_num)

lemma convertFloatIntoDuration_mono {d d' : K} (h : d ≤ d') :
    convertFloatIntoDuration d ≤ convertFloatIntoDuration d' := by
  have hf : ⌊d * 86400000⌋ ≤ ⌊d' * 86400000⌋ := by gcongr
  rw [convertFloatIntoDuration_eq, convertFloatIntoDuration_eq]
  apply millisec_mono
  omega

/-- A duration exceeds the days it stands for, by one millisecond at most. -/
lemma convertFloatIntoDuration_mem (d : K) :
    d * 86400000000 < (convertFloatIntoDuration d : K) ∧
      (convertFloatIntoDuration d : K) ≤ d * 86400000000 + 1000 := by
  have h0 := Int.floor_le (d * 86400000)
  have h1 := Int.lt_floor_add_one (d * 86400000)
  rw [convertFloatIntoDuration_eq]
  unfold DateTime.millisec
  push_cast
  constructor <;> linarith

/-- **The conversion rounds strictly up**: a number of days becomes the least whole number of
milliseconds above it. More days do not become less, and the days are at most a millisecond
away. -/
theorem convertFloatIntoDuration_isLeast :
    (∀ d : K,
      IsLeast {t : Duration | (∃ n, t = DateTime.millisec n) ∧ d * (DateTime.oneDay : K) < (t : K)}
        (convertFloatIntoDuration d) ∧
      |(convertFloatIntoDuration d : K) - d * (DateTime.oneDay : K)|
        ≤ (DateTime.millisec 1 : K)) ∧
    ∀ d d' : K, d ≤ d' → convertFloatIntoDuration d ≤ convertFloatIntoDuration d' := by
  refine ⟨fun d => ?_, fun d d' => convertFloatIntoDuration_mono⟩
  obtain ⟨hgt, hle⟩ := convertFloatIntoDuration_mem d
  have hday : (DateTime.oneDay : K) = 86400000000 := by
    unfold DateTime.oneDay
    norm_num
  rw [hday]
  refine ⟨⟨⟨⟨_, convertFloatIntoDuration_eq d⟩, hgt⟩, ?_⟩, ?_⟩
  · rintro _ ⟨⟨n, rfl⟩, hn⟩
    have hfloor : ⌊d * 86400000⌋ < n := by
      refine Int.floor_lt.mpr ?_
      unfold DateTime.millisec at hn
      push_cast at hn
      linarith
    rw [convertFloatIntoDuration_eq]
    apply millisec_mono
    omega
  · rw [abs_of_pos (sub_pos.mpr hgt)]
    unfold DateTime.millisec
    push_cast
    linarith

/-- The theorem on rational numbers: a second before departure is a whole number of milliseconds
already, and the duration is one more. -/
theorem convertFloatIntoDuration_isLeast_sample :
    convertFloatIntoDuration (-1 / 86400 : ℚ) = DateTime.millisec (-999) ∧
    IsLeast {t : Duration | (∃ n, t = DateTime.millisec n) ∧
      (-1 / 86400) * (DateTime.oneDay : ℚ) < (t : ℚ)} (DateTime.millisec (-999)) := by
  have heq : convertFloatIntoDuration (-1 / 86400 : ℚ) = DateTime.millisec (-999) := by
    decide +kernel
  have h := (convertFloatIntoDuration_isLeast.1 (-1 / 86400 : ℚ)).1
  rw [heq] at h
  exact ⟨heq, h⟩

end Durations

variable {K G : Type} [Field K] [LinearOrder K] [FloorRing K] [Libm K] [RandomGeneration K G]

/-! ### The start of a stream -/

/-- A stream as `setAll` on a new stream, or `reset`, leaves it. -/
inductive Started : DemandStream K G → Prop
  | setAll (iKey : DemandStreamKey) (d : DemandCharacteristics K) (dist : DemandDistribution K)
      (g : G) (n m : ℕ) : Started (setAll (make iKey) d dist g n m).1
  | reset (s : DemandStream K G) (g : G) : Started (reset s g).1

/-- Nothing was generated, and something is still to be. -/
structure Fresh (s : DemandStream K G) : Prop where
  context : s.randomGenerationContext = ⟨0, 0⟩
  still : s.stillHavingRequests = true
  first : s.firstDateTimeRequest = true

lemma Started.fresh {s : DemandStream K G} (h : Started s) : Fresh s := by
  cases h with
  | setAll => exact ⟨rfl, rfl, rfl⟩
  | reset => exact ⟨rfl, rfl, rfl⟩

lemma stillHavingRequestsToBeGenerated_STA_ORD (s : DemandStream K G) :
    s.stillHavingRequestsToBeGenerated .STA_ORD = true ↔
      s.randomGenerationContext.numberOfRequestsGeneratedSoFar
        < s.totalNumberOfRequestsToBeGenerated := by
  simp [stillHavingRequestsToBeGenerated]

@[simp] lemma lookup_ok {σ α : Type} (a : α) (s : σ) :
    lookup (.ok a : Except Fault α) s = .ok a s := rfl
@[simp] lemma lookup_error {σ α : Type} (e : Fault) (s : σ) :
    lookup (.error e : Except Fault α) s = .error e s := rfl

lemma lookup_eq_ok {σ α : Type} {x : Except Fault α} {s s' : σ} {a : α} :
    lookup x s = .ok a s' ↔ x = .ok a ∧ s' = s := by
  cases x with
  | ok b => simp [eq_comm]
  | error e => simp

/-! ### Order statistics -/

/-- The factor of a step: the power of the complement of the variate, clamped. -/
def orderFactor (m : ℤ) (u : K) : K :=
  min (Libm.pow (1 - u) (1 / (m : K))) (1 - 1e-6)

/-- The number of requests not generated yet. -/
def remaining (s : DemandStream K G) : ℤ :=
  s.totalNumberOfRequestsToBeGenerated - s.randomGenerationContext.numberOfRequestsGeneratedSoFar

/-- The cumulative probability of the next request. -/
def nextProbability (s : DemandStream K G) : K :=
  1 - (1 - s.randomGenerationContext.cumulativeProbabilitySoFar)
    * orderFactor s.remaining (variate s.requestDateTimeRandomGenerator 0)

lemma generateTimeOfRequestStatisticsOrder_eq (s : DemandStream K G) :
    generateTimeOfRequestStatisticsOrder s =
      if 0 < s.remaining then
        match s.demandCharacteristics.arrivalPattern.getValue s.nextProbability with
        | .ok d => .ok (s.departureDateTime + convertFloatIntoDuration d)
            (s.withTime ⟨s.randomGenerationContext.numberOfRequestsGeneratedSoFar + 1,
                s.nextProbability⟩ (advance s.requestDateTimeRandomGenerator 1)
              s.stillHavingRequests s.firstDateTimeRequest s.dateTimeLastRequest)
        | .error e => .error e (s.withTime s.randomGenerationContext
            (advance s.requestDateTimeRandomGenerator 1) s.stillHavingRequests
            s.firstDateTimeRequest s.dateTimeLastRequest)
      else .error .assertion s := by
  have hf : ∀ (m : ℤ) (u : K), (if Libm.pow (1 - u) (1 / (m : K)) ≥ 1 - 1e-6 then 1 - 1e-6
      else Libm.pow (1 - u) (1 / (m : K))) = orderFactor m u := by
    intro m u
    unfold orderFactor
    split_ifs with h
    · rw [min_eq_right h]
    · rw [min_eq_left (not_le.mp h).le]
  unfold generateTimeOfRequestStatisticsOrder
  by_cases h : 0 < s.remaining
  · have h' : 0 < s.totalNumberOfRequestsToBeGenerated -
        s.randomGenerationContext.numberOfRequestsGeneratedSoFar := h
    have hdraw : drawRequestDateTime s = .ok (variate s.requestDateTimeRandomGenerator 0)
        (s.withTime s.randomGenerationContext (advance s.requestDateTimeRandomGenerator 1)
          s.stillHavingRequests s.firstDateTimeRequest s.dateTimeLastRequest) := rfl
    have hnext : 1 - (1 - s.randomGenerationContext.cumulativeProbabilitySoFar) * orderFactor
        (s.totalNumberOfRequestsToBeGenerated -
          s.randomGenerationContext.numberOfRequestsGeneratedSoFar)
        (variate s.requestDateTimeRandomGenerator 0) = s.nextProbability := rfl
    simp only [get_bind, h', not_true_eq_false, if_false, h, if_true, hf]
    rw [bind_ok hdraw, hnext]
    cases hv : s.demandCharacteristics.arrivalPattern.getValue s.nextProbability with
    | ok d => rfl
    | error e => rfl
  · have h' : ¬ 0 < s.totalNumberOfRequestsToBeGenerated -
        s.randomGenerationContext.numberOfRequestsGeneratedSoFar := h
    simp only [get_bind, h', not_false_eq_true, if_true, h, if_false]
    exact bind_error (throw_apply _ _)

/-- A time of the order statistics is the value of the pattern at the next probability, and one
request less remains. -/
lemma generateTimeOfRequestStatisticsOrder_ok {s s' : DemandStream K G} {t : DateTime}
    (h : generateTimeOfRequestStatisticsOrder s = .ok t s') :
    ∃ d, s.demandCharacteristics.arrivalPattern.getValue s.nextProbability = .ok d ∧
      t = s.departureDateTime + convertFloatIntoDuration d ∧
      s'.randomGenerationContext.cumulativeProbabilitySoFar = s.nextProbability ∧
      s'.remaining = s.remaining - 1 := by
  rw [generateTimeOfRequestStatisticsOrder_eq] at h
  split_ifs at h
  cases hd : s.demandCharacteristics.arrivalPattern.getValue s.nextProbability with
  | error e =>
    rw [hd] at h
    cases h
  | ok d =>
    rw [hd] at h
    cases h
    exact ⟨d, rfl, rfl, rfl, sub_add_eq_sub_sub _ _ _⟩

/-! ### The Poisson process -/

/-- Where a visit stands in the booking period: at the lower bound of the arrival pattern if no
request was generated, else at the last request. -/
def position (s : DemandStream K G) : Except Fault K :=
  if s.firstDateTimeRequest then s.demandCharacteristics.arrivalPattern.getValue 0
  else .ok s.dateTimeLastRequest

/-- The stream at a position. -/
def at_ (s : DemandStream K G) (x : K) : DemandStream K G :=
  { s with dateTimeLastRequest := x, firstDateTimeRequest := false }

/-- The walk from the last request to the next one or to the end of the interval. -/
def walk (s : DemandStream K G) : EStateM.Result Fault (DemandStream K G) (Visit K) :=
  let x := s.dateTimeLastRequest
  if x = -1 then
    .ok (.stop (s.departureDateTime + convertFloatIntoDuration (1 : K)))
      { s with stillHavingRequests := false }
  else
    match s.demandCharacteristics.arrivalPattern.getUpperBound x with
    | .error e => .error e s
    | .ok b =>
      match s.demandCharacteristics.arrivalPattern.getDerivativeValue x with
      | .error e => .error e s
      | .ok q =>
        let r := q * s.demandDistribution.meanNumberOfRequests
        let (e, g) := RandomGeneration.exponential r s.requestDateTimeRandomGenerator
        if 0 < r then
          if x + e < b then
            .ok (.accept (s.departureDateTime + convertFloatIntoDuration (x + e)) r x (x + e))
              { s with
                randomGenerationContext :=
                  s.randomGenerationContext.incrementGeneratedRequestsCounter
                requestDateTimeRandomGenerator := g
                dateTimeLastRequest := x + e }
          else
            .ok (.cross r x b)
              { s with requestDateTimeRandomGenerator := g, dateTimeLastRequest := b }
        else .error .nonPositiveRate s

lemma walkPoissonProcess_eq (s : DemandStream K G) : walkPoissonProcess s = s.walk := by
  have hneg : -DEFAULT_LAST_LOWER_BOUND_ARRIVAL_PATTERN = (1 : K) := neg_neg 1
  unfold walkPoissonProcess walk
  rw [hneg, get_bind]
  by_cases h1 : s.dateTimeLastRequest = DEFAULT_LAST_LOWER_BOUND_ARRIVAL_PATTERN
  · rw [if_pos h1, if_pos (show s.dateTimeLastRequest = -1 from h1)]
    rfl
  rw [if_neg h1, if_neg (show ¬ s.dateTimeLastRequest = -1 from h1)]
  cases hb : s.demandCharacteristics.arrivalPattern.getUpperBound s.dateTimeLastRequest with
  | error e => rfl
  | ok b =>
    cases hq : s.demandCharacteristics.arrivalPattern.getDerivativeValue s.dateTimeLastRequest with
    | error e => rfl
    | ok q =>
      by_cases hr : 0 < q * s.demandDistribution.meanNumberOfRequests
      · have hexp : generateExponential (q * s.demandDistribution.meanNumberOfRequests) s = .ok
            (RandomGeneration.exponential (q * s.demandDistribution.meanNumberOfRequests)
              s.requestDateTimeRandomGenerator).1
            { s with requestDateTimeRandomGenerator :=
              (RandomGeneration.exponential (q * s.demandDistribution.meanNumberOfRequests)
                s.requestDateTimeRandomGenerator).2 } := by
          simp only [generateExponential, hr, if_true]
        rw [bind_ok (lookup_ok b s), bind_ok (lookup_ok q s), bind_ok hexp]
        simp only [hr, if_true]
        split_ifs <;> rfl
      · have hexp : generateExponential (q * s.demandDistribution.meanNumberOfRequests) s =
            .error .nonPositiveRate s := by
          simp only [generateExponential, hr, if_false]
        rw [bind_ok (lookup_ok b s), bind_ok (lookup_ok q s), bind_error hexp]
        simp only [hr, if_false]

/-- A visit starts from its position. -/
lemma visitPoissonProcess_eq (s : DemandStream K G) :
    visitPoissonProcess s =
      match s.position with
      | .ok x => (s.at_ x).walk
      | .error e => .error e s := by
  unfold visitPoissonProcess position
  cases hf : s.firstDateTimeRequest with
  | true =>
    cases hv : s.demandCharacteristics.arrivalPattern.getValue 0 with
    | error e =>
      have hs : startPoissonProcess s = .error e s := by
        simp only [startPoissonProcess, get_bind, hf, if_true, hv]
        rfl
      rw [bind_error hs]
      rfl
    | ok x =>
      have hs : startPoissonProcess s = .ok ⟨⟩ (s.at_ x) := by
        simp only [startPoissonProcess, get_bind, hf, if_true, hv]
        rfl
      rw [bind_ok hs, walkPoissonProcess_eq]
      rfl
  | false =>
    have hs : startPoissonProcess s = .ok ⟨⟩ s := by
      simp only [startPoissonProcess, get_bind, hf]
      rfl
    have hat : s.at_ s.dateTimeLastRequest = s := by
      unfold at_
      rw [← hf]
    rw [bind_ok hs, walkPoissonProcess_eq]
    simp only [Bool.false_eq_true, if_false, hat]

lemma poissonProcess_succ (n : ℕ) (s : DemandStream K G) :
    poissonProcess (n + 1) s =
      match visitPoissonProcess s with
      | .ok (.stop t) s' => .ok t s'
      | .ok (.accept t _ _ _) s' => .ok t s'
      | .ok (.cross _ _ _) s' => poissonProcess n s'
      | .error e s' => .error e s' := by
  rw [poissonProcess]
  cases h : visitPoissonProcess s with
  | error e s' => rw [bind_error h]
  | ok a s' =>
    rw [bind_ok h]
    cases a <;> rfl

/-! ### What the draw of a time leaves alone -/

/-- The draw of a time changes only its own part, and does not read the characteristics
generator. -/
structure TimeDraw {α : Type} (x : EStateM Fault (DemandStream K G) α) : Prop where
  timeOnly : ∀ s, TimeOnly s (stateOf (x s))
  frame : ∀ s g, x (s.withCharacteristics g) = mapState (·.withCharacteristics g) (x s)

lemma timeDraw_walk : TimeDraw (K := K) (G := G) walkPoissonProcess := by
  refine ⟨fun s => ?_, fun s g => ?_⟩
  · rw [walkPoissonProcess_eq]
    unfold walk
    dsimp only
    repeat' split
    all_goals rfl
  · rw [walkPoissonProcess_eq, walkPoissonProcess_eq]
    unfold walk withCharacteristics departureDateTime
    dsimp only
    repeat' split
    all_goals rfl

lemma timeDraw_visit : TimeDraw (K := K) (G := G) visitPoissonProcess := by
  refine ⟨fun s => ?_, fun s g => ?_⟩
  · rw [visitPoissonProcess_eq]
    cases s.position with
    | error e => exact TimeOnly.refl s
    | ok x =>
      have hat : TimeOnly s (s.at_ x) := rfl
      have hw := timeDraw_walk.timeOnly (s.at_ x)
      rw [walkPoissonProcess_eq] at hw
      exact hat.trans hw
  · have hp : (s.withCharacteristics g).position = s.position := rfl
    rw [visitPoissonProcess_eq, visitPoissonProcess_eq, hp]
    cases s.position with
    | error e => rfl
    | ok x =>
      have hw := timeDraw_walk.frame (s.at_ x) g
      rw [walkPoissonProcess_eq, walkPoissonProcess_eq] at hw
      exact hw

lemma timeDraw_poissonProcess (n : ℕ) : TimeDraw (K := K) (G := G) (poissonProcess n) := by
  induction n with
  | zero => exact ⟨fun s => TimeOnly.refl s, fun s g => rfl⟩
  | succ n ih =>
    refine ⟨fun s => ?_, fun s g => ?_⟩
    · have hv := timeDraw_visit.timeOnly s
      rw [poissonProcess_succ]
      cases h : visitPoissonProcess s with
      | error e s' => rwa [h] at hv
      | ok a s' =>
        rw [h] at hv
        cases a with
        | stop t => exact hv
        | accept t r x y => exact hv
        | cross r x y => exact hv.trans (ih.timeOnly s')
    · rw [poissonProcess_succ, poissonProcess_succ, timeDraw_visit.frame]
      cases h : visitPoissonProcess s with
      | error e s' => rfl
      | ok a s' =>
        cases a with
        | stop t => rfl
        | accept t r x y => rfl
        | cross r x y => exact ih.frame s' g

/-- The draw of a time, by either method. -/
lemma timeDraw (m : DemandGenerationMethod) :
    TimeDraw (K := K) (G := G) (generateTimeOfRequest m) := by
  cases m with
  | POI_PRO =>
    exact ⟨fun s => (timeDraw_poissonProcess _).timeOnly s,
      fun s g => (timeDraw_poissonProcess _).frame s g⟩
  | STA_ORD =>
    refine ⟨fun s => ?_, fun s g => ?_⟩
    · simp only [generateTimeOfRequest]
      rw [generateTimeOfRequestStatisticsOrder_eq]
      repeat' split
      all_goals rfl
    · have h1 : (s.withCharacteristics g).remaining = s.remaining := rfl
      have h2 : (s.withCharacteristics g).nextProbability = s.nextProbability := rfl
      simp only [generateTimeOfRequest]
      rw [generateTimeOfRequestStatisticsOrder_eq, generateTimeOfRequestStatisticsOrder_eq, h1, h2]
      unfold withCharacteristics
      dsimp only
      repeat' split
      all_goals rfl

/-! ### A whole request -/

section Draws

variable {s s' : DemandStream K G} {g : G} {k : ℕ}

/-- A categorical draw takes one variate. -/
lemma generateCategorical_eq_ok {T : Type} {x : T}
    {table : DemandCharacteristics K → CategoricalAttributeLite T K} :
    generateCategorical table (s.withCharacteristics (advance g k)) = .ok x s' ↔
      (table s.demandCharacteristics).getValue (variate g k) = .ok x ∧
      s' = s.withCharacteristics (advance g (k + 1)) :=
  lookup_eq_ok

lemma generateBelow_eq_ok {x : Bool} {prob : DemandCharacteristics K → K} :
    generateBelow prob (s.withCharacteristics (advance g k)) = .ok x s' ↔
      x = decide (variate g k < prob s.demandCharacteristics) ∧
      s' = s.withCharacteristics (advance g (k + 1)) := by
  have h : generateBelow prob (s.withCharacteristics (advance g k)) = .ok
      (if variate g k < prob s.demandCharacteristics then true else false)
      (s.withCharacteristics (advance g (k + 1))) := rfl
  rw [h]
  simp [eq_comm]

lemma generatePreferredDepartureTime_eq_ok {x : Duration} :
    generatePreferredDepartureTime (s.withCharacteristics (advance g k)) = .ok x s' ↔
      ∃ n, s.demandCharacteristics.preferredDepartureTimeCumulativeDistribution.getValue
          (variate g k) = .ok n ∧ x = DateTime.seconds n ∧
        s' = s.withCharacteristics (advance g (k + 1)) := by
  have h : generatePreferredDepartureTime (s.withCharacteristics (advance g k)) =
      (lookup (s.demandCharacteristics.preferredDepartureTimeCumulativeDistribution.getValue
          (variate g k)) >>= fun n => pure (DateTime.seconds n))
      (s.withCharacteristics (advance g (k + 1))) := rfl
  rw [h, bind_eq_ok]
  refine ⟨?_, ?_⟩
  · rintro ⟨n, t, hn, hx⟩
    obtain ⟨hn', rfl⟩ := lookup_eq_ok.mp hn
    cases hx
    exact ⟨n, hn', rfl, rfl⟩
  · rintro ⟨n, hn, rfl, rfl⟩
    exact ⟨n, _, lookup_eq_ok.mpr ⟨hn, rfl⟩, rfl⟩

lemma generateValueOfTime_eq_ok {x : K} :
    generateValueOfTime (s.withCharacteristics (advance g k)) = .ok x s' ↔
      s.demandCharacteristics.valueOfTimeCumulativeDistribution.getValue (variate g k) = .ok x ∧
      s' = s.withCharacteristics (advance g (k + 1)) :=
  lookup_eq_ok

/-- The willingness-to-pay of a request on a date, from a variate. -/
def wtpAt (d : DemandCharacteristics K) (departure : Date) (t : DateTime) (u : K) :
    Except Fault K := do
  let f ← d.frat5Pattern.getValue (-((departure - t.date : ℤ) : K))
  return d.minWTP * (1 + (f - 1) * Libm.log u / Libm.log (1 / 2))

lemma generateWTP_eq_ok {g' : G} {departure : Date} {t : DateTime} {n : ℕ} {w : K} :
    generateWTP g departure t n s = .ok (w, g') s' ↔
      wtpAt s.demandCharacteristics departure t (variate g 0) = .ok w ∧ g' = advance g 1 ∧
        s' = s := by
  have h : generateWTP g departure t n s =
      (lookup (s.demandCharacteristics.frat5Pattern.getValue (-((departure - t.date : ℤ) : K))) >>=
        fun f => pure (s.demandCharacteristics.minWTP
          * (1 + (f - 1) * Libm.log (variate g 0) / Libm.log (1 / 2)), advance g 1)) s := rfl
  rw [h]
  unfold wtpAt
  cases s.demandCharacteristics.frat5Pattern.getValue (-((departure - t.date : ℤ) : K)) with
  | error e =>
    rw [bind_error (lookup_error e s)]
    refine ⟨fun h => ?_, ?_⟩
    · cases h
    · rintro ⟨h, -⟩
      cases h
  | ok f =>
    rw [bind_ok (lookup_ok f s)]
    refine ⟨fun h => ?_, ?_⟩
    · cases h
      exact ⟨rfl, rfl, rfl⟩
    · rintro ⟨h, rfl, rfl⟩
      cases h
      rfl

/-- The time is drawn whatever the state of the characteristics generator. -/
lemma generateTimeOfRequest_eq_ok {m : DemandGenerationMethod} {t : DateTime} :
    generateTimeOfRequest m (s.withCharacteristics g) = .ok t s' ↔
      ∃ s₁, generateTimeOfRequest m s = .ok t s₁ ∧ s' = s₁.withCharacteristics g := by
  rw [(timeDraw m).frame s g]
  cases generateTimeOfRequest m s with
  | error e s₁ => simp
  | ok t' s₁ => simp [eq_comm]

end Draws

/-- What the draws of a request return from a state of the characteristics generator. -/
structure Draws (d : DemandCharacteristics K) (g : G) : Type where
  pos : String
  channel : String
  tripType : String
  stayDuration : ℕ
  frequentFlyer : String
  preferredDepartureTime : ℤ
  valueOfTime : K
  pos_eq : d.posProbabilityMass.getValue (variate g 0) = .ok pos
  channel_eq : d.channelProbabilityMass.getValue (variate g 1) = .ok channel
  tripType_eq : d.tripTypeProbabilityMass.getValue (variate g 2) = .ok tripType
  stayDuration_eq : d.stayDurationProbabilityMass.getValue (variate g 3) = .ok stayDuration
  frequentFlyer_eq : d.frequentFlyerProbabilityMass.getValue (variate g 4) = .ok frequentFlyer
  preferredDepartureTime_eq : d.preferredDepartureTimeCumulativeDistribution.getValue
    (variate g 7) = .ok preferredDepartureTime
  valueOfTime_eq : d.valueOfTimeCumulativeDistribution.getValue (variate g 8) = .ok valueOfTime

/-- The request made of the draws. -/
def requestOf (s : DemandStream K G) (t : DateTime) {d : DemandCharacteristics K} {g : G}
    (x : Draws d g) (wtp : K) : BookingRequestStruct K where
  generatorKey := s.key
  origin := s.key.origin
  destination := s.key.destination
  pos := x.pos
  preferedDepartureDate := s.key.preferredDepartureDate
  requestDateTime := t
  preferredCabin := s.key.preferredCabin
  bookingChannel := x.channel
  tripType := x.tripType
  stayDuration := x.stayDuration
  frequentFlyerType := x.frequentFlyer
  preferredDepartureTime := DateTime.seconds x.preferredDepartureTime
  wtp := wtp
  valueOfTime := x.valueOfTime
  changeFees := decide (variate g 5 < d.changeFeeProb)
  changeFeeDisutility := d.changeFeeDisutility
  nonRefundable := decide (variate g 6 < d.nonRefundableProb)
  nonRefundableDisutility := d.nonRefundableDisutility

/-- **A request**: its time is drawn by the method, the rest by nine variates of the
characteristics generator and one of the shared generator. -/
theorem generateNextRequest_eq_ok {s s' : DemandStream K G} {g g' : G} {m : DemandGenerationMethod}
    {r : BookingRequestStruct K} :
    generateNextRequest g m s = .ok (r, g') s' ↔
      ∃ (t : DateTime) (s₁ : DemandStream K G)
        (x : Draws s.demandCharacteristics s.demandCharacteristicsRandomGenerator) (w : K),
        generateTimeOfRequest m s = .ok t s₁ ∧
        wtpAt s.demandCharacteristics s.key.preferredDepartureDate t (variate g 0) = .ok w ∧
        r = requestOf s t x w ∧ g' = advance g 1 ∧
        s' = s₁.withCharacteristics (advance s.demandCharacteristicsRandomGenerator 9) := by
  have hd {s₁ : DemandStream K G} {t : DateTime} (h : generateTimeOfRequest m s = .ok t s₁) :
      s₁.demandCharacteristics = s.demandCharacteristics ∧ s₁.key = s.key := by
    have ht := (timeDraw m).timeOnly s
    rw [h] at ht
    exact ⟨ht.characteristics, ht.key⟩
  have hs : s = s.withCharacteristics (advance s.demandCharacteristicsRandomGenerator 0) := rfl
  unfold generateNextRequest
  refine ⟨fun h => ?_, ?_⟩
  · rw [hs] at h
    obtain ⟨pos, _, h0, h⟩ := bind_eq_ok.mp h
    obtain ⟨hpos, rfl⟩ := generateCategorical_eq_ok.mp h0
    obtain ⟨t, _, h0, h⟩ := bind_eq_ok.mp h
    obtain ⟨s₁, ht, rfl⟩ := generateTimeOfRequest_eq_ok.mp h0
    obtain ⟨hc, hk⟩ := hd ht
    obtain ⟨channel, _, h0, h⟩ := bind_eq_ok.mp h
    obtain ⟨hchannel, rfl⟩ := generateCategorical_eq_ok.mp h0
    obtain ⟨trip, _, h0, h⟩ := bind_eq_ok.mp h
    obtain ⟨htrip, rfl⟩ := generateCategorical_eq_ok.mp h0
    obtain ⟨stay, _, h0, h⟩ := bind_eq_ok.mp h
    obtain ⟨hstay, rfl⟩ := generateCategorical_eq_ok.mp h0
    obtain ⟨flyer, _, h0, h⟩ := bind_eq_ok.mp h
    obtain ⟨hflyer, rfl⟩ := generateCategorical_eq_ok.mp h0
    obtain ⟨change, _, h0, h⟩ := bind_eq_ok.mp h
    obtain ⟨hchange, rfl⟩ := generateBelow_eq_ok.mp h0
    obtain ⟨refund, _, h0, h⟩ := bind_eq_ok.mp h
    obtain ⟨hrefund, rfl⟩ := generateBelow_eq_ok.mp h0
    obtain ⟨time, _, h0, h⟩ := bind_eq_ok.mp h
    obtain ⟨n, hn, rfl, rfl⟩ := generatePreferredDepartureTime_eq_ok.mp h0
    obtain ⟨value, _, h0, h⟩ := bind_eq_ok.mp h
    obtain ⟨hvalue, rfl⟩ := generateValueOfTime_eq_ok.mp h0
    rw [get_bind] at h
    obtain ⟨⟨w, g₁⟩, _, h0, h⟩ := bind_eq_ok.mp h
    obtain ⟨hw, rfl, rfl⟩ := generateWTP_eq_ok.mp h0
    rw [hc] at hchannel htrip hstay hflyer hchange hrefund hn hvalue
    have hw' : wtpAt s.demandCharacteristics s.key.preferredDepartureDate t (variate g 0)
        = .ok w := by
      rw [← hc, ← hk]
      exact hw
    refine ⟨t, s₁, ⟨pos, channel, trip, stay, flyer, n, value, hpos, hchannel, htrip, hstay,
      hflyer, hn, hvalue⟩, w, ht, hw', ?_⟩
    cases h
    subst hchange hrefund
    refine ⟨?_, rfl, rfl⟩
    simp only [withCharacteristics, requestOf, hc, hk]
  · rintro ⟨t, s₁, ⟨pos, channel, trip, stay, flyer, n, value, hpos, hchannel, htrip, hstay, hflyer,
      hn, hvalue⟩, w, ht, hw, rfl, rfl, rfl⟩
    obtain ⟨hc, hk⟩ := hd ht
    rw [← hc] at hchannel htrip hstay hflyer hn hvalue
    have h0 : generatePOS (s.withCharacteristics (advance s.demandCharacteristicsRandomGenerator 0))
        = .ok pos (s.withCharacteristics (advance s.demandCharacteristicsRandomGenerator 1)) :=
      generateCategorical_eq_ok.mpr ⟨hpos, rfl⟩
    refine bind_eq_ok.mpr ⟨_, _, h0, ?_⟩
    refine bind_eq_ok.mpr ⟨_, _, generateTimeOfRequest_eq_ok.mpr ⟨_, ht, rfl⟩, ?_⟩
    refine bind_eq_ok.mpr ⟨_, _, generateCategorical_eq_ok.mpr ⟨hchannel, rfl⟩, ?_⟩
    refine bind_eq_ok.mpr ⟨_, _, generateCategorical_eq_ok.mpr ⟨htrip, rfl⟩, ?_⟩
    refine bind_eq_ok.mpr ⟨_, _, generateCategorical_eq_ok.mpr ⟨hstay, rfl⟩, ?_⟩
    refine bind_eq_ok.mpr ⟨_, _, generateCategorical_eq_ok.mpr ⟨hflyer, rfl⟩, ?_⟩
    refine bind_eq_ok.mpr ⟨_, _, generateBelow_eq_ok.mpr ⟨rfl, rfl⟩, ?_⟩
    refine bind_eq_ok.mpr ⟨_, _, generateBelow_eq_ok.mpr ⟨rfl, rfl⟩, ?_⟩
    refine bind_eq_ok.mpr ⟨_, _, generatePreferredDepartureTime_eq_ok.mpr ⟨_, hn, rfl, rfl⟩, ?_⟩
    refine bind_eq_ok.mpr ⟨_, _, generateValueOfTime_eq_ok.mpr ⟨hvalue, rfl⟩, ?_⟩
    have hw' : wtpAt s₁.demandCharacteristics s₁.key.preferredDepartureDate t (variate g 0)
        = .ok w := by
      rw [hc, hk]
      exact hw
    rw [get_bind]
    refine bind_eq_ok.mpr ⟨_, _, generateWTP_eq_ok.mpr ⟨hw', rfl, rfl⟩, ?_⟩
    simp only [withCharacteristics, requestOf, hc, hk]
    rfl

lemma generateNextRequest_time {s s' : DemandStream K G} {g g' : G} {m : DemandGenerationMethod}
    {r : BookingRequestStruct K} (h : generateNextRequest g m s = .ok (r, g') s') :
    ∃ s₁ g₁, generateTimeOfRequest m s = .ok r.requestDateTime s₁ ∧
      s' = s₁.withCharacteristics g₁ := by
  obtain ⟨t, s₁, x, w, ht, -, rfl, -, rfl⟩ := generateNextRequest_eq_ok.mp h
  exact ⟨s₁, _, ht, rfl⟩

/-! ### The stream a request leaves, also by a fault -/

/-- A computation that changes nothing but the characteristics generator. -/
def OnlyCharacteristics {α : Type} (x : EStateM Fault (DemandStream K G) α) : Prop :=
  ∀ s, ∃ g, stateOf (x s) = s.withCharacteristics g

section OnlyCharacteristics

variable {α β : Type}

lemma onlyCharacteristics_bind {x : EStateM Fault (DemandStream K G) α}
    {f : α → EStateM Fault (DemandStream K G) β} (hx : OnlyCharacteristics x)
    (hf : ∀ a, OnlyCharacteristics (f a)) : OnlyCharacteristics (x >>= f) := by
  intro s
  obtain ⟨g, hg⟩ := hx s
  cases h : x s with
  | error e s' =>
    rw [h, stateOf_error] at hg
    exact ⟨g, by rw [bind_error h, stateOf_error, hg]⟩
  | ok a s' =>
    rw [h, stateOf_ok] at hg
    obtain ⟨g', hg'⟩ := hf a s'
    rw [hg] at hg'
    exact ⟨g', by rw [bind_ok h, hg, hg']; rfl⟩

lemma onlyCharacteristics_get {f : DemandStream K G → EStateM Fault (DemandStream K G) β}
    (hf : ∀ s, OnlyCharacteristics (f s)) : OnlyCharacteristics (get >>= f) :=
  fun s => hf s s

lemma onlyCharacteristics_pure (a : α) :
    OnlyCharacteristics (pure a : EStateM Fault (DemandStream K G) α) :=
  fun s => ⟨s.demandCharacteristicsRandomGenerator, rfl⟩

lemma onlyCharacteristics_lookup (x : Except Fault α) :
    OnlyCharacteristics (lookup x : EStateM Fault (DemandStream K G) α) := by
  cases x with
  | ok a => exact fun s => ⟨s.demandCharacteristicsRandomGenerator, rfl⟩
  | error e => exact fun s => ⟨s.demandCharacteristicsRandomGenerator, rfl⟩

lemma onlyCharacteristics_draw :
    OnlyCharacteristics (drawDemandCharacteristics (K := K) (G := G)) :=
  fun _ => ⟨_, rfl⟩

lemma onlyCharacteristics_categorical {T : Type}
    (table : DemandCharacteristics K → CategoricalAttributeLite T K) :
    OnlyCharacteristics (generateCategorical (G := G) table) :=
  onlyCharacteristics_bind onlyCharacteristics_draw fun _ =>
    onlyCharacteristics_get fun _ => onlyCharacteristics_lookup _

lemma onlyCharacteristics_below (prob : DemandCharacteristics K → K) :
    OnlyCharacteristics (generateBelow (G := G) prob) :=
  onlyCharacteristics_bind onlyCharacteristics_draw fun _ =>
    onlyCharacteristics_get fun _ => onlyCharacteristics_pure _

lemma onlyCharacteristics_preferredDepartureTime :
    OnlyCharacteristics (generatePreferredDepartureTime (K := K) (G := G)) :=
  onlyCharacteristics_bind onlyCharacteristics_draw fun _ =>
    onlyCharacteristics_get fun _ =>
      onlyCharacteristics_bind (onlyCharacteristics_lookup _) fun _ => onlyCharacteristics_pure _

lemma onlyCharacteristics_valueOfTime :
    OnlyCharacteristics (generateValueOfTime (K := K) (G := G)) :=
  onlyCharacteristics_bind onlyCharacteristics_draw fun _ =>
    onlyCharacteristics_get fun _ => onlyCharacteristics_lookup _

lemma onlyCharacteristics_wtp (g : G) (d : Date) (t : DateTime) (n : ℕ) :
    OnlyCharacteristics (generateWTP (K := K) g d t n) :=
  onlyCharacteristics_get fun _ =>
    onlyCharacteristics_bind (onlyCharacteristics_lookup _) fun _ => onlyCharacteristics_pure _

end OnlyCharacteristics

/-- A request whose point of sale is not found throws, with one variate drawn. -/
lemma generateNextRequest_pos {s : DemandStream K G} {e : Fault}
    (h : s.demandCharacteristics.posProbabilityMass.getValue
      (variate s.demandCharacteristicsRandomGenerator 0) = .error e)
    (g : G) (m : DemandGenerationMethod) :
    generateNextRequest g m s = .error e
      (s.withCharacteristics (advance s.demandCharacteristicsRandomGenerator 1)) := by
  have hpos : generatePOS s = lookup (s.demandCharacteristics.posProbabilityMass.getValue
      (variate s.demandCharacteristicsRandomGenerator 0))
      (s.withCharacteristics (advance s.demandCharacteristicsRandomGenerator 1)) := rfl
  rw [h, lookup_error] at hpos
  exact bind_error hpos

/-- **The stream a request leaves**: as it was, but for the characteristics generator, if the
point of sale could not be drawn; else as the draw of the time left it. A fault of that draw is a
fault of the request. -/
theorem generateNextRequest_stateOf (g : G) (m : DemandGenerationMethod) (s : DemandStream K G) :
    (∃ e g', s.demandCharacteristics.posProbabilityMass.getValue
          (variate s.demandCharacteristicsRandomGenerator 0) = .error e ∧
        generateNextRequest g m s = .error e (s.withCharacteristics g')) ∨
      (∃ t s₁ g', generateTimeOfRequest m s = .ok t s₁ ∧
        stateOf (generateNextRequest g m s) = s₁.withCharacteristics g') ∨
      ∃ e s₁ g', generateTimeOfRequest m s = .error e s₁ ∧
        generateNextRequest g m s = .error e (s₁.withCharacteristics g') := by
  cases hv : s.demandCharacteristics.posProbabilityMass.getValue
      (variate s.demandCharacteristicsRandomGenerator 0) with
  | error e => exact Or.inl ⟨e, _, rfl, generateNextRequest_pos hv g m⟩
  | ok pos =>
    have hpos : generatePOS s = lookup (s.demandCharacteristics.posProbabilityMass.getValue
        (variate s.demandCharacteristicsRandomGenerator 0))
        (s.withCharacteristics (advance s.demandCharacteristicsRandomGenerator 1)) := rfl
    rw [hv, lookup_ok] at hpos
    unfold generateNextRequest
    rw [bind_ok hpos]
    have hframe := (timeDraw m).frame s (advance s.demandCharacteristicsRandomGenerator 1)
    generalize advance s.demandCharacteristicsRandomGenerator 1 = g₁ at hframe ⊢
    cases ht : generateTimeOfRequest m s with
    | error e s₁ =>
      rw [ht, mapState_error] at hframe
      exact Or.inr (Or.inr ⟨e, s₁, g₁, rfl, bind_error hframe⟩)
    | ok t s₁ =>
      rw [ht, mapState_ok] at hframe
      rw [bind_ok hframe]
      refine Or.inr (Or.inl ⟨t, s₁, ?_⟩)
      suffices h : ∃ g', stateOf _ = (s₁.withCharacteristics g₁).withCharacteristics g' by
        obtain ⟨g', hg'⟩ := h
        exact ⟨g', rfl, hg'⟩
      refine onlyCharacteristics_bind (onlyCharacteristics_categorical _) (fun channel => ?_) _
      refine onlyCharacteristics_bind (onlyCharacteristics_categorical _) fun trip => ?_
      refine onlyCharacteristics_bind (onlyCharacteristics_categorical _) fun stay => ?_
      refine onlyCharacteristics_bind (onlyCharacteristics_categorical _) fun flyer => ?_
      refine onlyCharacteristics_bind (onlyCharacteristics_below _) fun change => ?_
      refine onlyCharacteristics_bind (onlyCharacteristics_below _) fun refund => ?_
      refine onlyCharacteristics_bind onlyCharacteristics_preferredDepartureTime fun time => ?_
      refine onlyCharacteristics_bind onlyCharacteristics_valueOfTime fun value => ?_
      refine onlyCharacteristics_get fun s₂ => ?_
      exact onlyCharacteristics_bind (onlyCharacteristics_wtp _ _ _ _) fun w =>
        onlyCharacteristics_pure _

/-- What the draw of a time preserves, and the draws of characteristics do not see, is preserved by
a request. -/
lemma generateNextRequest_preserves {P : DemandStream K G → Prop} {m : DemandGenerationMethod}
    {s : DemandStream K G} (h : P s) (htime : P (stateOf (generateTimeOfRequest m s)))
    (hw : ∀ s₁ g', P s₁ → P (s₁.withCharacteristics g')) (g : G) :
    P (stateOf (generateNextRequest g m s)) := by
  rcases generateNextRequest_stateOf g m s with
    ⟨e, g', -, hg⟩ | ⟨t, s₁, g', ht, hg⟩ | ⟨e, s₁, g', ht, hg⟩
  · rw [hg, stateOf_error]
    exact hw s g' h
  · rw [ht, stateOf_ok] at htime
    rw [hg]
    exact hw s₁ g' htime
  · rw [ht, stateOf_error] at htime
    rw [hg, stateOf_error]
    exact hw s₁ g' htime

/-- The part of a stream that no request changes is the same. -/
structure SameBase (s s' : DemandStream K G) : Prop where
  key : s'.key = s.key
  characteristics : s'.demandCharacteristics = s.demandCharacteristics
  distribution : s'.demandDistribution = s.demandDistribution
  total : s'.totalNumberOfRequestsToBeGenerated = s.totalNumberOfRequestsToBeGenerated

lemma TimeOnly.sameBase {s s' : DemandStream K G} (h : TimeOnly s s') : SameBase s s' :=
  ⟨h.key, h.characteristics, h.distribution, h.total⟩

lemma SameBase.withCharacteristics {s s' : DemandStream K G} (h : SameBase s s') (g : G) :
    SameBase s (s'.withCharacteristics g) :=
  ⟨h.key, h.characteristics, h.distribution, h.total⟩

lemma sameBase_time (m : DemandGenerationMethod) (s : DemandStream K G) :
    SameBase s (stateOf (generateTimeOfRequest m s)) :=
  ((timeDraw m).timeOnly s).sameBase

lemma sameBase_next (g : G) (m : DemandGenerationMethod) (s : DemandStream K G) :
    SameBase s (stateOf (generateNextRequest g m s)) :=
  generateNextRequest_preserves (TimeOnly.refl s).sameBase (sameBase_time m s)
    (fun _ g' h => h.withCharacteristics g') g

/-! ### The states of a stream -/

/-- The states a stream goes through: it is started, its first-request flag is set, and times or
requests are generated while some remain. A lookup that throws leaves its state behind; a failed
assertion ends the program. -/
inductive Reachable : DemandStream K G → Prop
  | started {s} : Started s → Reachable s
  | first {s} : Reachable s → Reachable (s.setBoolFirstDateTimeRequest true)
  | time {s s' m t} : Reachable s → s.stillHavingRequestsToBeGenerated m = true →
      generateTimeOfRequest m s = .ok t s' → Reachable s'
  | next {s s' m g r} : Reachable s → s.stillHavingRequestsToBeGenerated m = true →
      generateNextRequest g m s = .ok r s' → Reachable s'
  | thrown {s s' m g e} : Reachable s → s.stillHavingRequestsToBeGenerated m = true →
      generateNextRequest g m s = .error e s' → e = .outOfRange ∨ e = .indexOutOfRange →
      Reachable s'

/-! ### A sample stream -/

section Sample

variable [IsStrictOrderedRing K]

def sampleKey : DemandStreamKey := ⟨"SIN", "BKK", 2455237, "Y"⟩

/-- Characteristics with one value in every table but the arrival pattern. -/
def sampleCharacteristics (iArrivalPattern : List (K × K)) (iPreferredDepartureTime : ℤ) :
    DemandCharacteristics K :=
  .make (.ofPairs iArrivalPattern) (.ofPairs [("BKK", 1)]) (.ofPairs [("DN", 1)])
    (.ofPairs [("RO", 1)]) (.ofPairs [(5, 1)]) (.ofPairs [("N", 1)]) (1 / 2) 50 (1 / 2) 50
    (.ofPairs [(iPreferredDepartureTime, 1)]) 1000 (.ofPairs [(15, 1)])

/-- A stream reset, with a number of requests and the variates of their times. -/
def sampleStream (iArrivalPattern : List (K × K)) (iPreferredDepartureTime iNumber : ℤ)
    (iMean : K) (iDateTimes : Tape K) : DemandStream K (Tape K) :=
  (reset { make sampleKey with
    demandCharacteristics := sampleCharacteristics iArrivalPattern iPreferredDepartureTime
    demandDistribution := ⟨iMean, 0⟩
    requestDateTimeRandomGenerator := iDateTimes }
    (Tape.const 0 1 iNumber Tape.zero_mem Tape.one_pos)).1

variable {iArrivalPattern : List (K × K)} {iPreferredDepartureTime iNumber : ℤ} {iMean : K}
  {iDateTimes : Tape K}

lemma sampleStream_started :
    Started (sampleStream iArrivalPattern iPreferredDepartureTime iNumber iMean iDateTimes) :=
  .reset _ _

lemma sampleStream_total :
    (sampleStream iArrivalPattern iPreferredDepartureTime iNumber iMean
      iDateTimes).totalNumberOfRequestsToBeGenerated = iNumber := by
  have h : ⌊(iNumber : K) + 1 / 2⌋ = iNumber := by
    rw [Int.floor_eq_iff]
    constructor <;> norm_num
  exact h

/-- No draw of the sample characteristics fails. -/
def sampleDraws (hu : UniformLaw K G) (g : G) :
    Draws (sampleCharacteristics iArrivalPattern iPreferredDepartureTime) g where
  pos := "BKK"
  channel := "DN"
  tripType := "RO"
  stayDuration := 5
  frequentFlyer := "N"
  preferredDepartureTime := iPreferredDepartureTime
  valueOfTime := 15
  pos_eq := CategoricalAttributeLite.getValue_single _ (hu _).2.le
  channel_eq := CategoricalAttributeLite.getValue_single _ (hu _).2.le
  tripType_eq := CategoricalAttributeLite.getValue_single _ (hu _).2.le
  stayDuration_eq := CategoricalAttributeLite.getValue_single _ (hu _).2.le
  frequentFlyer_eq := CategoricalAttributeLite.getValue_single _ (hu _).2.le
  preferredDepartureTime_eq := ContinuousAttributeLite.getValue_single _ _ _
  valueOfTime_eq := ContinuousAttributeLite.getValue_single _ _ _

end Sample

end DemandStream

end Trademgen
