import Trademgen.DemandStreamSpec

/-!
The order statistics of the request times.

After `k` requests out of `N` the complement of the cumulative probability is a product of `k`
factors, so the whole stream after `k` requests is known in closed form.
-/

set_option linter.unusedSectionVars false

namespace Trademgen

open Faulting OrderedMap

namespace DemandStream

section Closed

variable {K G : Type} [Field K] [LinearOrder K] [FloorRing K] [Libm K] [RandomGeneration K G]

/-- The complement of the cumulative probability after `k` requests out of `N`. -/
def complementAfter (N : ℤ) (g : G) (k : ℕ) : K :=
  ∏ j ∈ Finset.range k, orderFactor (N - j) (variate g j)

@[simp] lemma complementAfter_zero (N : ℤ) (g : G) : complementAfter N g 0 = (1 : K) := by
  simp [complementAfter]

lemma complementAfter_succ (N : ℤ) (g : G) (k : ℕ) :
    complementAfter N g (k + 1) = complementAfter N g k * orderFactor (N - k) (variate g k) :=
  Finset.prod_range_succ _ k

/-- The cumulative probability of the request number `k`, from `0`. -/
def probabilityOf (s : DemandStream K G) (k : ℕ) : K :=
  1 - complementAfter s.totalNumberOfRequestsToBeGenerated s.requestDateTimeRandomGenerator (k + 1)

/-- The stream after `k` requests, their characteristics left aside. -/
def afterRequests (s : DemandStream K G) (k : ℕ) : DemandStream K G :=
  s.withTime
    ⟨k, 1 - complementAfter s.totalNumberOfRequestsToBeGenerated s.requestDateTimeRandomGenerator k⟩
    (advance s.requestDateTimeRandomGenerator k) s.stillHavingRequests s.firstDateTimeRequest
    s.dateTimeLastRequest

lemma Fresh.afterRequests_zero {s : DemandStream K G} (h : Fresh s) : s.afterRequests 0 = s := by
  have hc : (⟨(0 : ℕ), 1 - complementAfter s.totalNumberOfRequestsToBeGenerated
      s.requestDateTimeRandomGenerator 0⟩ : RandomGenerationContext K)
        = s.randomGenerationContext := by
    rw [h.context]
    simp
  unfold afterRequests withTime
  rw [hc]
  rfl

lemma remaining_afterRequests (s : DemandStream K G) (k : ℕ) :
    (s.afterRequests k).remaining = s.totalNumberOfRequestsToBeGenerated - k := rfl

lemma nextProbability_afterRequests (s : DemandStream K G) (k : ℕ) :
    (s.afterRequests k).nextProbability = s.probabilityOf k := by
  unfold nextProbability probabilityOf
  rw [remaining_afterRequests, complementAfter_succ]
  simp only [afterRequests, withTime, sub_sub_cancel]
  rfl

lemma stillHaving_afterRequests (s : DemandStream K G) (k : ℕ) :
    (s.afterRequests k).stillHavingRequestsToBeGenerated .STA_ORD = true ↔
      (k : ℤ) < s.totalNumberOfRequestsToBeGenerated :=
  stillHavingRequestsToBeGenerated_STA_ORD _

/-- **A step**: the request number `k` leaves the stream after `k + 1` requests. -/
lemma generateTimeOfRequest_afterRequests {s : DemandStream K G} {k : ℕ} {d : K}
    (hk : (k : ℤ) < s.totalNumberOfRequestsToBeGenerated)
    (hd : s.demandCharacteristics.arrivalPattern.getValue (s.probabilityOf k) = .ok d) :
    generateTimeOfRequestStatisticsOrder (s.afterRequests k)
      = .ok (s.departureDateTime + convertFloatIntoDuration d) (s.afterRequests (k + 1)) := by
  have hr : 0 < (s.afterRequests k).remaining := by
    rw [remaining_afterRequests]
    omega
  have hv : (s.afterRequests k).demandCharacteristics.arrivalPattern.getValue
      (s.afterRequests k).nextProbability = .ok d := by
    rw [nextProbability_afterRequests]
    exact hd
  rw [generateTimeOfRequestStatisticsOrder_eq, if_pos hr, hv, nextProbability_afterRequests]
  unfold afterRequests withTime probabilityOf
  push_cast
  rfl

/-! ### Whole requests -/

/-- The stream after `k` requests. -/
def after (s : DemandStream K G) (k : ℕ) : DemandStream K G :=
  (s.afterRequests k).withCharacteristics
    (advance s.demandCharacteristicsRandomGenerator (9 * k))

lemma Fresh.after_zero {s : DemandStream K G} (h : Fresh s) : s.after 0 = s := by
  unfold after
  rw [h.afterRequests_zero]
  rfl

lemma stillHaving_after (s : DemandStream K G) (k : ℕ) :
    (s.after k).stillHavingRequestsToBeGenerated .STA_ORD = true ↔
      (k : ℤ) < s.totalNumberOfRequestsToBeGenerated :=
  stillHavingRequestsToBeGenerated_STA_ORD _

lemma nextProbability_after (s : DemandStream K G) (k : ℕ) :
    (s.after k).nextProbability = s.probabilityOf k :=
  nextProbability_afterRequests s k

lemma cumulativeProbability_after (s : DemandStream K G) (k : ℕ) :
    (s.after (k + 1)).randomGenerationContext.cumulativeProbabilitySoFar = s.probabilityOf k := rfl

/-- No draw fails: the tables are not empty, and every categorical draw of a request returns. -/
structure Sound (s : DemandStream K G) : Prop where
  pattern : 0 < s.demandCharacteristics.arrivalPattern.size
  frat5 : 0 < s.demandCharacteristics.frat5Pattern.size
  draws : ∀ k : ℕ, (k : ℤ) < s.totalNumberOfRequestsToBeGenerated →
    Nonempty (Draws s.demandCharacteristics
      (advance s.demandCharacteristicsRandomGenerator (9 * k)))

/-- The request number `k` of a stream, as its variates determine it. -/
structure IsRequest (s : DemandStream K G) (k : ℕ) (r : BookingRequestStruct K) : Prop where
  generatorKey : r.generatorKey = s.key
  departure : r.preferedDepartureDate = s.key.preferredDepartureDate
  time : ∃ d, s.demandCharacteristics.arrivalPattern.getValue (s.probabilityOf k) = .ok d ∧
    r.requestDateTime = s.departureDateTime + convertFloatIntoDuration d
  preferred : ∃ p, s.demandCharacteristics.preferredDepartureTimeCumulativeDistribution.getValue
      (variate s.demandCharacteristicsRandomGenerator (9 * k + 7)) = .ok p ∧
    r.preferredDepartureTime = DateTime.seconds p

lemma exists_wtpAt {d : DemandCharacteristics K} (h : 0 < d.frat5Pattern.size) (departure : Date)
    (t : DateTime) (u : K) : ∃ w, wtpAt d departure t u = .ok w := by
  obtain ⟨f, hf⟩ := d.frat5Pattern.exists_getValue h (-((departure - t.date : ℤ) : K))
  exact ⟨_, by unfold wtpAt; rw [hf]; rfl⟩

/-- **A request of a sound stream** is generated, and leaves the stream after one request more. -/
theorem Sound.generateNextRequest {s : DemandStream K G} (h : Sound s) {k : ℕ}
    (hk : (k : ℤ) < s.totalNumberOfRequestsToBeGenerated) (g : G) :
    ∃ r, DemandStream.generateNextRequest g .STA_ORD (s.after k)
        = .ok (r, advance g 1) (s.after (k + 1)) ∧ IsRequest s k r := by
  obtain ⟨d, hd⟩ :=
    s.demandCharacteristics.arrivalPattern.exists_getValue h.pattern (s.probabilityOf k)
  obtain ⟨x⟩ := h.draws k hk
  have htime : generateTimeOfRequest .STA_ORD (s.after k)
      = .ok (s.departureDateTime + convertFloatIntoDuration d)
        ((s.afterRequests (k + 1)).withCharacteristics
          (advance s.demandCharacteristicsRandomGenerator (9 * k))) :=
    generateTimeOfRequest_eq_ok.mpr ⟨_, generateTimeOfRequest_afterRequests hk hd, rfl⟩
  obtain ⟨w, hw⟩ := exists_wtpAt h.frat5 s.key.preferredDepartureDate
    (s.departureDateTime + convertFloatIntoDuration d) (variate g 0)
  refine ⟨_, generateNextRequest_eq_ok.mpr ⟨_, _, x, w, htime, hw, rfl, rfl, ?_⟩,
    rfl, rfl, ⟨d, hd, rfl⟩, x.preferredDepartureTime, ?_, rfl⟩
  · unfold after
    rw [Nat.mul_add, Nat.mul_one, advance_add]
    rfl
  · rw [← x.preferredDepartureTime_eq]
    unfold variate
    rw [advance_add]

/-- The calls made on a stream while it has requests left, up to the last one: their number. The
shared generator may have any state at each of them. -/
inductive Generates (m : DemandGenerationMethod) : DemandStream K G → ℕ → Prop
  | stop {s} : s.stillHavingRequestsToBeGenerated m = false → Generates m s 0
  | next {s s' g g' r n} : s.stillHavingRequestsToBeGenerated m = true →
      DemandStream.generateNextRequest g m s = .ok (r, g') s' → Generates m s' n →
      Generates m s (n + 1)

lemma stillHaving_iff_remaining (s : DemandStream K G) :
    s.stillHavingRequestsToBeGenerated .STA_ORD = true ↔ 0 < s.remaining := by
  rw [stillHavingRequestsToBeGenerated_STA_ORD]
  unfold remaining
  omega

lemma Generates.count {s : DemandStream K G} {n : ℕ} (h : Generates .STA_ORD s n) :
    (n : ℤ) = max 0 s.remaining := by
  induction h with
  | @stop s hstill =>
    rw [← Bool.not_eq_true, stillHaving_iff_remaining] at hstill
    omega
  | @next s s' g g' r n hstill hr _ ih =>
    rw [stillHaving_iff_remaining] at hstill
    obtain ⟨s₁, g₁, ht, rfl⟩ := generateNextRequest_time hr
    obtain ⟨d, -, -, -, hrem⟩ := generateTimeOfRequestStatisticsOrder_ok ht
    have hrem' : (s₁.withCharacteristics g₁).remaining = s.remaining - 1 := hrem
    rw [hrem'] at ih
    omega

/-- A sound stream generates as many requests as it drew, and none if it drew a negative number. -/
lemma Sound.generates {s : DemandStream K G} (h : Sound s) (hs : Fresh s) :
    Generates .STA_ORD s s.totalNumberOfRequestsToBeGenerated.toNat := by
  set N := s.totalNumberOfRequestsToBeGenerated.toNat with hN
  have hrun : ∀ j ≤ N, Generates .STA_ORD (s.after (N - j)) j := by
    intro j
    induction j with
    | zero =>
      intro _
      refine .stop ?_
      rw [← Bool.not_eq_true, stillHaving_after]
      omega
    | succ j ih =>
      intro hj
      have hk : ((N - (j + 1) : ℕ) : ℤ) < s.totalNumberOfRequestsToBeGenerated := by omega
      obtain ⟨r, hr, -⟩ := h.generateNextRequest hk s.requestDateTimeRandomGenerator
      have hsucc : N - (j + 1) + 1 = N - j := by omega
      rw [hsucc] at hr
      exact .next ((stillHaving_after s _).mpr hk) hr (ih (by omega))
  have h0 := hrun N le_rfl
  rwa [Nat.sub_self, hs.after_zero] at h0

/-- The request number `k` is dated before its own preferred departure. -/
def Punctual (s : DemandStream K G) (k : ℕ) : Prop :=
  ∃ d p, s.demandCharacteristics.arrivalPattern.getValue (s.probabilityOf k) = .ok d ∧
    s.demandCharacteristics.preferredDepartureTimeCumulativeDistribution.getValue
      (variate s.demandCharacteristicsRandomGenerator (9 * k + 7)) = .ok p ∧
    let t : DateTime := s.departureDateTime + convertFloatIntoDuration d
    t.date < s.key.preferredDepartureDate ∨
      t.date = s.key.preferredDepartureDate ∧ t.timeOfDay < DateTime.seconds p

/-! ### The loop -/

/-- The calls made while requests remain, up to a number of calls: the times, in order. -/
def generateTimes : ℕ → EStateM Fault (DemandStream K G) (List DateTime)
  | 0 => pure []
  | n + 1 => do
    let s ← get
    if s.stillHavingRequestsToBeGenerated .STA_ORD then
      let t ← generateTimeOfRequestStatisticsOrder
      let ts ← generateTimes n
      return t :: ts
    else return []

lemma generateTimes_stop {s : DemandStream K G}
    (h : s.stillHavingRequestsToBeGenerated .STA_ORD = false) (n : ℕ) :
    generateTimes n s = .ok [] s := by
  cases n with
  | zero => rfl
  | succ n => simp [generateTimes, h]

lemma generateTimes_call {s s' : DemandStream K G} {t : DateTime}
    (h : s.stillHavingRequestsToBeGenerated .STA_ORD = true)
    (ht : generateTimeOfRequestStatisticsOrder s = .ok t s') {n : ℕ} {ts : List DateTime}
    {s'' : DemandStream K G} (hts : generateTimes n s' = .ok ts s'') :
    generateTimes (n + 1) s = .ok (t :: ts) s'' := by
  simp only [generateTimes, get_bind, h, if_true]
  rw [bind_ok ht, bind_ok hts, pure_apply]

/-- The loop walks through the streams after `k`, `k + 1`, … requests and draws each time from
the pattern. -/
lemma generateTimes_afterRequests {s : DemandStream K G}
    (hp : 0 < s.demandCharacteristics.arrivalPattern.size) (n : ℕ) :
    ∀ k : ℕ, ∃ ts, generateTimes n (s.afterRequests k) = .ok ts (s.afterRequests (k + ts.length)) ∧
      ts.length = min n (s.totalNumberOfRequestsToBeGenerated - k).toNat ∧
      ∀ t ∈ ts, ∃ p d, s.demandCharacteristics.arrivalPattern.getValue p = .ok d ∧
        t = s.departureDateTime + convertFloatIntoDuration d := by
  induction n with
  | zero => exact fun k => ⟨[], rfl, by simp, by simp⟩
  | succ n ih =>
    intro k
    rcases lt_or_ge (k : ℤ) s.totalNumberOfRequestsToBeGenerated with hk | hk
    · obtain ⟨d, hd⟩ :=
        s.demandCharacteristics.arrivalPattern.exists_getValue hp (s.probabilityOf k)
      obtain ⟨ts, hts, hlen, hmem⟩ := ih (k + 1)
      have hrun := generateTimes_call ((stillHaving_afterRequests s k).mpr hk)
        (generateTimeOfRequest_afterRequests hk hd) hts
      refine ⟨(s.departureDateTime + convertFloatIntoDuration d) :: ts, ?_, ?_, ?_⟩
      · rw [hrun, List.length_cons, Nat.add_assoc, Nat.add_comm 1]
      · rw [List.length_cons, hlen]
        push_cast
        omega
      · intro t ht
        rcases List.mem_cons.mp ht with rfl | ht
        · exact ⟨_, d, hd, rfl⟩
        · exact hmem t ht
    · have hstop : (s.afterRequests k).stillHavingRequestsToBeGenerated .STA_ORD = false := by
        rw [← Bool.not_eq_true, stillHaving_afterRequests]
        exact not_lt.mpr hk
      refine ⟨[], generateTimes_stop hstop _, ?_, by simp⟩
      rw [List.length_nil]
      omega

end Closed

/-! ### The probabilities -/

section Real

variable {G : Type} [RandomGeneration ℝ G]

lemma orderFactor_mem {m : ℤ} {u : ℝ} (hu : u < 1) :
    0 < orderFactor m u ∧ orderFactor m u ≤ 1 - 1e-6 := by
  have hpow : 0 < (1 - u) ^ (1 / (m : ℝ)) := Real.rpow_pos_of_pos (by linarith) _
  exact ⟨lt_min hpow (by norm_num), min_le_right _ _⟩

lemma complementAfter_pos (hu : UniformLaw ℝ G) (N : ℤ) (g : G) (k : ℕ) :
    0 < complementAfter N g k :=
  Finset.prod_pos fun _ _ => (orderFactor_mem (hu _).2).1

/-- Every request takes away a part of what was left. -/
lemma complementAfter_strictAnti (hu : UniformLaw ℝ G) (N : ℤ) (g : G) :
    StrictAnti (complementAfter N g) := by
  refine strictAnti_nat_of_succ_lt fun k => ?_
  have hpos := complementAfter_pos hu N g k
  have hle : orderFactor (N - k) (variate g k) ≤ 1 - 1e-6 := (orderFactor_mem (hu _).2).2
  calc complementAfter N g (k + 1)
      = complementAfter N g k * orderFactor (N - k) (variate g k) := complementAfter_succ N g k
    _ < complementAfter N g k := mul_lt_of_lt_one_right hpos (hle.trans_lt (by norm_num))

/-- **Order statistics**: a stream just started makes one call for each request drawn, and none
for a negative number of them. The complement of the cumulative probability is the product of
the factors, the probabilities increase strictly inside the unit interval, and every time lies
in the booking window. -/
theorem generateTimes_spec {s : DemandStream ℝ G} (hs : Started s) (hu : UniformLaw ℝ G)
    (hp : 0 < s.demandCharacteristics.arrivalPattern.size) :
    let N := s.totalNumberOfRequestsToBeGenerated
    let u := variate s.requestDateTimeRandomGenerator
    let a := s.demandCharacteristics.arrivalPattern
    let x := fun n =>
      (stateOf (generateTimes n s)).randomGenerationContext.cumulativeProbabilitySoFar
    (∀ n, ∃ ts s', generateTimes n s = .ok ts s' ∧ (ts.length : ℤ) = min (n : ℤ) (max 0 N) ∧
      (s'.stillHavingRequestsToBeGenerated .STA_ORD = true ↔ (n : ℤ) < N) ∧
      ∀ t ∈ ts, (s.departureDateTime : ℝ) + a.v 0 * DateTime.oneDay < t ∧
        (t : ℝ) ≤ s.departureDateTime + a.v (a.size - 1) * DateTime.oneDay + DateTime.millisec 1) ∧
    (∀ n : ℕ, (n : ℤ) ≤ max 0 N →
      1 - x n = ∏ j ∈ Finset.range n, min ((1 - u j) ^ (1 / ((N : ℝ) - j))) (1 - 1e-6)) ∧
    (∀ n m : ℕ, n < m → (m : ℤ) ≤ max 0 N → x n < x m) ∧
    (∀ n : ℕ, 0 < n → (n : ℤ) ≤ max 0 N → 0 < x n ∧ x n < 1) := by
  intro N u a x
  have hloop (n : ℕ) : ∃ ts, generateTimes n s = .ok ts (s.afterRequests ts.length) ∧
      ts.length = min n N.toNat ∧
      ∀ t ∈ ts, ∃ p d, a.getValue p = .ok d ∧
        t = s.departureDateTime + convertFloatIntoDuration d := by
    have h := generateTimes_afterRequests hp n 0
    rw [hs.fresh.afterRequests_zero] at h
    simpa using h
  have hx (n : ℕ) (hn : (n : ℤ) ≤ max 0 N) :
      x n = 1 - complementAfter N s.requestDateTimeRandomGenerator n := by
    obtain ⟨ts, hts, hlen, -⟩ := hloop n
    have hn' : ts.length = n := by omega
    have hst : x n
        = (s.afterRequests ts.length).randomGenerationContext.cumulativeProbabilitySoFar := by
      simp only [x, hts, stateOf_ok]
    rw [hst, hn']
    rfl
  refine ⟨fun n => ?_, fun n hn => ?_, fun n m hnm hm => ?_, fun n h0 hn => ?_⟩
  · obtain ⟨ts, hts, hlen, hmem⟩ := hloop n
    refine ⟨ts, _, hts, by omega, ?_, fun t ht => ?_⟩
    · rw [stillHaving_afterRequests]
      omega
    · obtain ⟨p, d, hd, rfl⟩ := hmem t ht
      obtain ⟨d', hd', h0, h1⟩ := a.getValue_mem hp p
      rw [hd] at hd'
      cases hd'
      obtain ⟨h2, h3⟩ := convertFloatIntoDuration_mem d
      unfold DateTime.oneDay DateTime.millisec
      push_cast
      constructor <;> linarith
  · rw [hx n hn, sub_sub_cancel]
    refine Finset.prod_congr rfl fun j _ => ?_
    unfold orderFactor
    push_cast
    rfl
  · rw [hx n (by omega), hx m hm]
    have := complementAfter_strictAnti hu N s.requestDateTimeRandomGenerator hnm
    linarith
  · have h1 := complementAfter_strictAnti hu N s.requestDateTimeRandomGenerator h0
    have h2 := complementAfter_pos hu N s.requestDateTimeRandomGenerator n
    rw [complementAfter_zero] at h1
    rw [hx n hn]
    constructor <;> linarith

theorem generateTimes_spec_sample :
    ∃ ts s', generateTimes 5 (sampleStream [(-2, 0), (0, (1 : ℝ))] 0 3 1
        (Tape.const (1 / 2) 1 0 (by norm_num) (by norm_num))) = .ok ts s' ∧
      (ts.length : ℤ) = 3 := by
  have hp : (OMap.ofPairs [((-2 : ℝ), (0 : ℝ)), (0, 1)]).pairs ≠ [] :=
    OMap.ofPairs_pairs_ne_nil (by simp)
  obtain ⟨h, -⟩ := generateTimes_spec (s := sampleStream [(-2, 0), (0, (1 : ℝ))] 0 3 1
    (Tape.const (1 / 2) 1 0 (by norm_num) (by norm_num))) sampleStream_started Tape.uniformLaw
    (List.length_pos_of_ne_nil hp)
  obtain ⟨ts, s', hts, hlen, -⟩ := h 5
  rw [sampleStream_total] at hlen
  exact ⟨ts, s', hts, by rw [hlen]; norm_num⟩

/-! ### One step -/

/-- A power of the factor of a step: the power of the root goes, the clamp is raised to it. -/
lemma orderFactor_pow {m : ℤ} (hm : 0 < m) {u : ℝ} (hu : u < 1) :
    orderFactor m u ^ m = min (1 - u) ((1 - 1e-6) ^ m) := by
  obtain ⟨n, rfl⟩ := Int.eq_ofNat_of_zero_le hm.le
  have hn : n ≠ 0 := by omega
  have hu' : 0 ≤ 1 - u := by linarith
  have hroot : ((1 - u) ^ (1 / ((n : ℤ) : ℝ))) ^ n = 1 - u := by
    rw [Int.cast_natCast, one_div]
    exact Real.rpow_inv_natCast_pow hu' hn
  have hroot' : 0 ≤ (1 - u) ^ (1 / ((n : ℤ) : ℝ)) := Real.rpow_nonneg hu' _
  have hclamp : (0 : ℝ) ≤ 1 - 1e-6 := by norm_num
  unfold orderFactor
  change min ((1 - u) ^ (1 / ((n : ℤ) : ℝ))) (1 - 1e-6) ^ (n : ℤ) = _
  rw [zpow_natCast, zpow_natCast]
  rcases le_total ((1 - u) ^ (1 / ((n : ℤ) : ℝ))) (1 - 1e-6) with h | h
  · have hpow := pow_le_pow_left₀ hroot' h n
    rw [hroot] at hpow
    rw [min_eq_left h, min_eq_left hpow, hroot]
  · have hpow := pow_le_pow_left₀ hclamp h n
    rw [hroot] at hpow
    rw [min_eq_right h, min_eq_right hpow]

/-- The part of what was left that a step leaves is the factor of the step. -/
lemma complement_nextProbability {s : DemandStream ℝ G}
    (hx : s.randomGenerationContext.cumulativeProbabilitySoFar < 1) :
    (1 - s.nextProbability) / (1 - s.randomGenerationContext.cumulativeProbabilitySoFar)
      = orderFactor s.remaining (variate s.requestDateTimeRandomGenerator 0) := by
  unfold nextProbability
  rw [sub_sub_cancel, mul_div_cancel_left₀ _ (sub_pos.mpr hx).ne']

/-- **One step** inverts the conditional distribution of the next order statistic, at the variate or
at the least value the clamp allows. -/
theorem step_inverts {s s' : DemandStream ℝ G} {t : DateTime}
    (hx : s.randomGenerationContext.cumulativeProbabilitySoFar ∈ Set.Ico (0 : ℝ) 1)
    (hm : 1 ≤ s.remaining) (hy : variate s.requestDateTimeRandomGenerator 0 ∈ Set.Ico (0 : ℝ) 1)
    (h : generateTimeOfRequestStatisticsOrder s = .ok t s') :
    let x := s.randomGenerationContext.cumulativeProbabilitySoFar
    let x' := s'.randomGenerationContext.cumulativeProbabilitySoFar
    let y := variate s.requestDateTimeRandomGenerator 0
    let m := s.remaining
    1 - ((1 - x') / (1 - x)) ^ m = max y (1 - (1 - 1e-6) ^ m) ∧
      (1 - (1 - 1e-6) ^ m ≤ y → 1 - ((1 - x') / (1 - x)) ^ m = y) ∧
      1 - (1 - x) * (1 - 1e-6) ≤ x' := by
  intro x x' y m
  obtain ⟨d, -, -, hnext, -⟩ := generateTimeOfRequestStatisticsOrder_ok h
  have hfactor : (1 - x') / (1 - x) = orderFactor m y := by
    rw [show x' = s.nextProbability from hnext]
    exact complement_nextProbability hx.2
  have hstep : 1 - ((1 - x') / (1 - x)) ^ m = max y (1 - (1 - 1e-6) ^ m) := by
    calc 1 - ((1 - x') / (1 - x)) ^ m = 1 - min (1 - y) ((1 - 1e-6) ^ m) := by
          rw [hfactor, orderFactor_pow (by omega) hy.2]
      _ = max (1 - (1 - y)) (1 - (1 - 1e-6) ^ m) := (max_sub_sub_left 1 _ _).symm
      _ = max y (1 - (1 - 1e-6) ^ m) := by rw [sub_sub_cancel]
  refine ⟨hstep, fun hle => ?_, ?_⟩
  · rw [hstep, max_eq_left hle]
  · have hle : (1 - x') / (1 - x) ≤ 1 - 1e-6 := hfactor.trans_le (min_le_right _ _)
    rw [div_le_iff₀ (sub_pos.mpr hx.2)] at hle
    linarith

theorem step_inverts_sample : ∃ t s', generateTimeOfRequestStatisticsOrder
      (sampleStream [(-2, 0), (0, (1 : ℝ))] 0 3 1
        (Tape.const (1 / 2) 1 0 (by norm_num) (by norm_num))) = .ok t s' ∧
    1 - (1 - s'.randomGenerationContext.cumulativeProbabilitySoFar) ^ 3 = 1 / 2 := by
  set s := sampleStream [(-2, 0), (0, (1 : ℝ))] 0 3 1
    (Tape.const (1 / 2) 1 0 (by norm_num) (by norm_num)) with hs
  have hm : s.remaining = 3 := by
    have htotal : s.totalNumberOfRequestsToBeGenerated = 3 := sampleStream_total
    unfold remaining
    rw [htotal]
    rfl
  have hx : s.randomGenerationContext.cumulativeProbabilitySoFar = 0 := rfl
  have hy : variate s.requestDateTimeRandomGenerator 0 = 1 / 2 := rfl
  obtain ⟨d, hd⟩ := s.demandCharacteristics.arrivalPattern.exists_getValue
    (List.length_pos_of_ne_nil (OMap.ofPairs_pairs_ne_nil (by simp))) s.nextProbability
  have hstep := generateTimeOfRequestStatisticsOrder_eq s
  rw [if_pos (by rw [hm]; norm_num), hd] at hstep
  obtain ⟨-, hinv, -⟩ := step_inverts (by rw [hx]; norm_num) (by rw [hm]; norm_num)
    (by rw [hy]; norm_num) hstep
  refine ⟨_, _, hstep, ?_⟩
  rw [hm, hx, hy, sub_zero, div_one] at hinv
  exact_mod_cast hinv (by norm_num)

lemma sound_sample {l : List (ℝ × ℝ)} (hl : l ≠ []) {p N : ℤ} {x : Tape ℝ} :
    Sound (sampleStream l p N 1 x) where
  pattern := List.length_pos_of_ne_nil (OMap.ofPairs_pairs_ne_nil hl)
  frat5 := List.length_pos_of_ne_nil (OMap.ofPairs_pairs_ne_nil (by simp))
  draws _ _ := ⟨sampleDraws Tape.uniformLaw _⟩

/-- The requests of a stream may all come at eight o'clock on the day of departure. -/
lemma punctual_sample {p N : ℤ} {x : Tape ℝ} {k : ℕ} :
    (sampleStream [(0, (1 : ℝ))] p N 1 x).Punctual k ↔ 28800 < p := by
  have hpref : (sampleStream [(0, (1 : ℝ))] p N 1 x).key.preferredDepartureDate = 2455237 := rfl
  have ht : (sampleStream [(0, (1 : ℝ))] p N 1 x).departureDateTime
      + convertFloatIntoDuration (0 : ℝ) = 2455237 * 86400000000 + 28800001000 := by
    rw [convertFloatIntoDuration_eq]
    norm_num [departureDateTime, hpref, DateTime.ptime, DateTime.hours, DateTime.millisec,
      DateTime.oneDay]
  have hdate : DateTime.date (2455237 * 86400000000 + 28800001000) = 2455237 := by decide
  have htime : DateTime.timeOfDay (2455237 * 86400000000 + 28800001000) = 28800001000 := by decide
  refine ⟨?_, fun h => ?_⟩
  · rintro ⟨d, q, hd, hq, h⟩
    cases (ContinuousAttributeLite.getValue_single _ _ _).symm.trans hd
    cases (ContinuousAttributeLite.getValue_single _ _ _).symm.trans hq
    simp only [ht, hdate, htime, hpref, DateTime.seconds] at h
    change (2455237 : ℤ) < 2455237 ∨ True ∧ (28800001000 : ℤ) < p * 1000000 at h
    omega
  · refine ⟨0, p, ContinuousAttributeLite.getValue_single _ _ _,
      ContinuousAttributeLite.getValue_single _ _ _, ?_⟩
    simp only [ht, hdate, htime, hpref, DateTime.seconds]
    have : (28800001000 : ℤ) < p * 1000000 := by omega
    exact Or.inr ⟨trivial, this⟩

end Real

end DemandStream

end Trademgen
