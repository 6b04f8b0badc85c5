import Trademgen.Categorical
import Trademgen.PoissonProcess

/-!
A request that fails: what a stream is left with when a categorical draw of a request throws.

The time is drawn after the point of sale and before everything else. Once it is drawn the
stream counts the request, whatever becomes of it.
-/

set_option linter.unusedSectionVars false

namespace Trademgen

open Faulting OrderedMap

/-! ### The faults of a lookup -/

lemma vectorAt_ne {α : Type} (xs : List α) (i : ℕ) : vectorAt xs i ≠ .error .indexOutOfRange := by
  unfold vectorAt
  cases xs[i]? <;> simp

lemma bind_ne {α β : Type} {e : Fault} {x : Except Fault α} {f : α → Except Fault β}
    (hx : x ≠ .error e) (hf : ∀ a, f a ≠ .error e) : (x >>= f) ≠ .error e := by
  cases x with
  | ok a => exact hf a
  | error e' => exact fun h => hx (by rw [Except.error.inj h])

namespace ContinuousAttributeLite

variable {K : Type} [Field K] [LinearOrder K] (a : ContinuousAttributeLite K K) (x : K)

lemma getValue_ne : a.getValue x ≠ .error .indexOutOfRange := by
  by_cases h : 0 < a.size
  · obtain ⟨y, hy⟩ := a.exists_getValue h x
    simp [hy]
  · have hidx : Knots.firstAbove x a.cumulativeDistribution = 0 := by
      have hle := a.firstAbove_c_le_size x
      omega
    unfold getValue
    rw [hidx]
    exact vectorAt_ne _ _

lemma getUpperBound_ne : a.getUpperBound x ≠ .error .indexOutOfRange := by
  unfold getUpperBound
  dsimp only
  split_ifs
  · simp
  · simp
  · exact vectorAt_ne _ _

lemma getDerivativeValue_ne : a.getDerivativeValue x ≠ .error .indexOutOfRange := by
  unfold getDerivativeValue
  dsimp only
  split_ifs
  · simp
  · simp
  · refine bind_ne (vectorAt_ne _ _) fun c1 => ?_
    refine bind_ne (vectorAt_ne _ _) fun v1 => ?_
    refine bind_ne (vectorAt_ne _ _) fun c0 => ?_
    refine bind_ne (vectorAt_ne _ _) fun v0 => ?_
    split_ifs
    · exact fun h => by cases h
    · exact fun h => by cases h

end ContinuousAttributeLite

namespace DemandStream

variable {K G : Type} [Field K] [LinearOrder K] [IsStrictOrderedRing K] [FloorRing K] [Libm K]
  [RandomGeneration K G]

/-! ### The faults of the draw of a time -/

lemma position_ne (s : DemandStream K G) : s.position ≠ .error .indexOutOfRange := by
  unfold position
  split_ifs
  · exact ContinuousAttributeLite.getValue_ne _ _
  · simp

lemma walk_ne (s s' : DemandStream K G) : s.walk ≠ .error .indexOutOfRange s' := by
  unfold walk
  dsimp only
  split
  · simp
  split
  · next e hb => exact fun h => by cases h; exact ContinuousAttributeLite.getUpperBound_ne _ _ hb
  split
  · next e hq =>
      exact fun h => by cases h; exact ContinuousAttributeLite.getDerivativeValue_ne _ _ hq
  split_ifs <;> simp

lemma visit_ne (s s' : DemandStream K G) :
    visitPoissonProcess s ≠ .error .indexOutOfRange s' := by
  rw [visitPoissonProcess_eq]
  cases hp : s.position with
  | error e => exact fun h => by cases h; exact s.position_ne hp
  | ok x => exact walk_ne _ _

lemma poissonProcess_ne (n : ℕ) (s s' : DemandStream K G) :
    poissonProcess n s ≠ .error .indexOutOfRange s' := by
  induction n generalizing s with
  | zero => exact fun h => by cases h
  | succ n ih =>
    rw [poissonProcess_succ]
    cases hv : visitPoissonProcess s with
    | error e s₁ => exact fun h => by cases h; exact visit_ne _ _ hv
    | ok v s₁ =>
      cases v with
      | stop t => simp
      | accept t r x y => simp
      | cross r x y => exact ih s₁

/-- The draw of a time does not throw what a categorical draw throws. -/
lemma generateTimeOfRequest_ne (m : DemandGenerationMethod) (s s' : DemandStream K G) :
    generateTimeOfRequest m s ≠ .error .indexOutOfRange s' := by
  cases m with
  | POI_PRO => exact poissonProcess_ne _ s s'
  | STA_ORD =>
    simp only [generateTimeOfRequest]
    rw [generateTimeOfRequestStatisticsOrder_eq]
    split_ifs
    · cases hv : s.demandCharacteristics.arrivalPattern.getValue s.nextProbability with
      | ok d => simp
      | error e => exact fun h => by cases h; exact ContinuousAttributeLite.getValue_ne _ _ hv
    · simp

/-! ### What the draw of a time counts -/

/-- A time drawn by the Poisson process is counted, or ends the walk. -/
lemma Call.counts {s s' : DemandStream K G} {vs : List (Visit K)} {t : DateTime}
    (h : Call s vs t s') :
    s'.randomGenerationContext.numberOfRequestsGeneratedSoFar
        = s.randomGenerationContext.numberOfRequestsGeneratedSoFar + 1 ∨
      s'.stillHavingRequests = false ∧ s'.firstDateTimeRequest = false ∧
        s'.dateTimeLastRequest = -1 := by
  induction h with
  | stop hv =>
    obtain ⟨x, -, hv⟩ := visit_cases hv
    cases hv
    exact Or.inr ⟨rfl, rfl, rfl⟩
  | accept hv =>
    obtain ⟨x, -, hv⟩ := visit_cases hv
    cases hv
    exact Or.inl rfl
  | cross hv _ ih =>
    obtain ⟨x, -, hv⟩ := visit_cases hv
    cases hv
    exact ih

/-- The walk of the stream is over, and the stream knows it. -/
structure Ended (s : DemandStream K G) : Prop where
  still : s.stillHavingRequests = false
  first : s.firstDateTimeRequest = false
  last : s.dateTimeLastRequest = -1

/-- What a failed request is to leave as it was. -/
structure NothingLost (s s' : DemandStream K G) : Prop where
  counter : s'.randomGenerationContext.numberOfRequestsGeneratedSoFar
    = s.randomGenerationContext.numberOfRequestsGeneratedSoFar
  cumulativeProbability : s'.randomGenerationContext.cumulativeProbabilitySoFar
    = s.randomGenerationContext.cumulativeProbabilitySoFar
  last : s'.dateTimeLastRequest = s.dateTimeLastRequest
  first : s'.firstDateTimeRequest = s.firstDateTimeRequest
  still : s'.stillHavingRequests = s.stillHavingRequests
  remaining : s'.remaining = s.remaining

lemma NothingLost.withCharacteristics (s : DemandStream K G) (g : G) :
    NothingLost s (s.withCharacteristics g) :=
  ⟨rfl, rfl, rfl, rfl, rfl, rfl⟩

/-- A walk that is over is over again, and nothing changes. -/
lemma Ended.generateTimeOfRequest {s : DemandStream K G} (h : Ended s) :
    DemandStream.generateTimeOfRequest .POI_PRO s = .ok s.terminator s := by
  have hp : s.position = .ok (-1) := by
    rw [← h.last]
    exact if_neg (by simp [h.first])
  have hs : s.stopped = s := by
    obtain ⟨still, first, last⟩ := h
    cases s
    simp only at still first last
    subst still first last
    rfl
  have hv := visit_stop hp
  rw [hs] at hv
  exact (Call.stop hv).generateTimeOfRequest

/-- A time that was drawn and left nothing changed is a time after the end of the walk. -/
lemma ended_of_nothingLost {m : DemandGenerationMethod} {s s' : DemandStream K G} {t : DateTime}
    (ht : generateTimeOfRequest m s = .ok t s') (h : NothingLost s s') :
    m = .POI_PRO ∧ Ended s := by
  cases m with
  | STA_ORD =>
    obtain ⟨-, -, -, -, hrem⟩ := generateTimeOfRequestStatisticsOrder_ok ht
    have := h.remaining
    omega
  | POI_PRO =>
    obtain ⟨vs, hcall⟩ := generateTimeOfRequestPoissonProcess_eq_ok.mp ht
    rcases hcall.counts with hcount | ⟨hstill, hfirst, hlast⟩
    · have := h.counter
      omega
    · exact ⟨rfl, h.still ▸ hstill, h.first ▸ hfirst, h.last ▸ hlast⟩

/-- **A failed request.** Nothing is lost when it is the point of sale that was not found, or the
walk of the Poisson process was over already; and in no other case. -/
theorem nothingLost_iff {s s' : DemandStream K G} {m : DemandGenerationMethod} {g : G}
    (h : generateNextRequest g m s = .error .indexOutOfRange s') :
    NothingLost s s' ↔
      s.demandCharacteristics.posProbabilityMass.getValue
          (variate s.demandCharacteristicsRandomGenerator 0) = .error .indexOutOfRange ∨
        m = .POI_PRO ∧ Ended s := by
  rcases generateNextRequest_stateOf g m s with
    ⟨e, g', hpos, hg⟩ | ⟨t, s₁, g', ht, hg⟩ | ⟨e, s₁, g', ht, hg⟩
  · rw [h] at hg
    cases hg
    exact iff_of_true (.withCharacteristics s g') (Or.inl hpos)
  · rw [h, stateOf_error] at hg
    subst hg
    refine ⟨fun hn => Or.inr (ended_of_nothingLost ht ⟨hn.counter, hn.cumulativeProbability,
      hn.last, hn.first, hn.still, hn.remaining⟩), ?_⟩
    rintro (hpos | ⟨rfl, hend⟩)
    · rw [generateNextRequest_pos hpos g m] at h
      rw [← (EStateM.Result.error.inj h).2]
      exact .withCharacteristics s _
    · rw [hend.generateTimeOfRequest] at ht
      cases ht
      exact .withCharacteristics s g'
  · rw [h] at hg
    cases hg
    exact absurd ht (generateTimeOfRequest_ne m s s₁)

/-! ### A channel of one request in five -/

lemma half_mem : 0 ≤ (1 / 2 : ℝ) ∧ (1 / 2 : ℝ) < 1 := by norm_num

noncomputable def shortSample : DemandStream ℝ (Tape ℝ) :=
  (reset { make sampleKey with
    demandCharacteristics := { sampleCharacteristics [(0, (1 : ℝ))] 36000 with
      channelProbabilityMass := .init (.ofPairs [("DN", (1 / 5 : ℝ))]) }
    demandDistribution := ⟨1, 0⟩
    demandCharacteristicsRandomGenerator := Tape.const (1 / 2 : ℝ) 1 0 half_mem Tape.one_pos }
    (Tape.const (0 : ℝ) 1 1 Tape.zero_mem Tape.one_pos)).1

lemma shortSample_channel :
    shortSample.demandCharacteristics.channelProbabilityMass.getValue (1 / 2)
      = .error .indexOutOfRange := by
  refine CategoricalAttributeLite.getValue_init_error _ fun k hk => ?_
  have he : CategoricalAttributeLite.entries (OMap.ofPairs [("DN", (1 / 5 : ℝ))]).pairs
      = [("DN", 1 / 5)] := by
    rw [OMap.ofPairs_pairs (by simp)]
    norm_num [CategoricalAttributeLite.entries]
  rw [he, List.length_singleton] at hk
  obtain rfl : k = 0 := by omega
  norm_num [CategoricalAttributeLite.massUpTo, he]

lemma shortSample_remaining : shortSample.remaining = 1 := by
  have h : ⌊(1 : ℝ) + 1 / 2⌋ = 1 := by
    rw [Int.floor_eq_iff]
    constructor <;> norm_num
  change ⌊(1 : ℝ) + 1 / 2⌋ - 0 = 1
  rw [h]
  rfl

/-- The channel is not found once the time is drawn. -/
lemma shortSample_fails (g : Tape ℝ) : ∃ s',
    generateNextRequest g .STA_ORD shortSample = .error .indexOutOfRange s' ∧
      s'.remaining = 0 := by
  have hpos : generatePOS shortSample = .ok "BKK" (shortSample.withCharacteristics
      (advance shortSample.demandCharacteristicsRandomGenerator 1)) :=
    congrArg (fun x => lookup x _) (CategoricalAttributeLite.getValue_single "BKK" half_mem.2.le)
  have htime := generateTimeOfRequestStatisticsOrder_eq shortSample
  have hval : shortSample.demandCharacteristics.arrivalPattern.getValue shortSample.nextProbability
      = .ok 0 := ContinuousAttributeLite.getValue_single _ _ _
  rw [if_pos (by rw [shortSample_remaining]; omega), hval] at htime
  obtain ⟨-, -, -, -, hrem⟩ := generateTimeOfRequestStatisticsOrder_ok htime
  have hframe := (timeDraw .STA_ORD).frame shortSample
    (advance shortSample.demandCharacteristicsRandomGenerator 1)
  simp only [generateTimeOfRequest] at hframe
  rw [htime, mapState_ok] at hframe
  refine ⟨_, (bind_ok hpos).trans ((bind_ok hframe).trans (bind_error
    (congrArg (fun x => lookup x _) shortSample_channel))), ?_⟩
  rw [shortSample_remaining] at hrem
  exact hrem

/-- The theorem for the stream whose channel is not found. -/
theorem nothingLost_iff_sample :
    ∃ s', generateNextRequest (Tape.const (0 : ℝ) 1 0 Tape.zero_mem Tape.one_pos) .STA_ORD
        shortSample = .error .indexOutOfRange s' ∧
      (NothingLost shortSample s' ↔
        shortSample.demandCharacteristics.posProbabilityMass.getValue
          (variate shortSample.demandCharacteristicsRandomGenerator 0) = .error .indexOutOfRange ∨
        DemandGenerationMethod.STA_ORD = .POI_PRO ∧ Ended shortSample) := by
  obtain ⟨s', h, -⟩ := shortSample_fails (Tape.const (0 : ℝ) 1 0 Tape.zero_mem Tape.one_pos)
  exact ⟨s', h, nothingLost_iff h⟩

/-- The only request of the stream is counted, and was not made. -/
theorem requestLost :
    ∃ s', generateNextRequest (Tape.const (0 : ℝ) 1 0 Tape.zero_mem Tape.one_pos) .STA_ORD
        shortSample = .error .indexOutOfRange s' ∧ ¬ NothingLost shortSample s' := by
  obtain ⟨s', h, hrem⟩ := shortSample_fails (Tape.const (0 : ℝ) 1 0 Tape.zero_mem Tape.one_pos)
  refine ⟨s', h, fun hn => ?_⟩
  have := hn.remaining
  rw [hrem, shortSample_remaining] at this
  omega

end DemandStream

end Trademgen
