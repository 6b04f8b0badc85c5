import Trademgen.FileService

/-!
The sample that comes with the program: three streams, without a demand file.
-/

set_option linter.unusedSectionVars false

namespace Trademgen

open OrderedMap Faulting EventQueue DemandManager DemandStream

/-! ### The tables of the sample -/

namespace SampleBom

def HOUR_CONVERTED_IN_SECONDS : ℤ := 3600

section Tables

variable (K : Type) [Field K] [LinearOrder K]

def lDTDProbDist : OMap K K :=
  .ofPairs [(-330, 0), (-150, 0.1), (-92, 0.2), (-55, 0.3), (-34, 0.4), (-21, 0.5), (-12, 0.6),
    (-6, 0.7), (-3, 0.8), (-1, 0.9), (0, 1)]

def lChannelProbDist : OMap String K := .ofPairs [("DF", 0), ("DN", 0), ("IF", 0), ("IN", 1)]

def lTripProbDist : OMap String K := .ofPairs [("RO", 0), ("RI", 0), ("OW", 1)]

def lStayProbDist : OMap ℕ K :=
  .ofPairs [(0, 0.1), (1, 0.1), (2, 0.15), (3, 0.15), (4, 0.15), (5, 0.35)]

def lFFProbDist : OMap String K :=
  .ofPairs [("P", 0.1), ("G", 0.01), ("S", 0.09), ("M", 0.4), ("N", 0.4)]

def lTimeValueProbDist : OMap K K := .ofPairs [(15.0, 0), (60.0, 1)]

def lSINPrefDepTimeProbDist : OMap ℤ K :=
  .ofPairs [(6 * HOUR_CONVERTED_IN_SECONDS, 0), (8 * HOUR_CONVERTED_IN_SECONDS, 0.7),
    (10 * HOUR_CONVERTED_IN_SECONDS, 0.8), (12 * HOUR_CONVERTED_IN_SECONDS, 0.9),
    (14 * HOUR_CONVERTED_IN_SECONDS, 1)]

/-- The third knot is written at one o'clock, between ten and fourteen. -/
def lBKKPrefDepTimeProbDist : OMap ℤ K :=
  .ofPairs [(8 * HOUR_CONVERTED_IN_SECONDS, 0), (10 * HOUR_CONVERTED_IN_SECONDS, 0.2),
    (1 * HOUR_CONVERTED_IN_SECONDS, 0.6), (14 * HOUR_CONVERTED_IN_SECONDS, 0.8),
    (16 * HOUR_CONVERTED_IN_SECONDS, 1)]

/-- The points of sale: all at the first one. -/
def posProbDist (iOrigin iDestination : String) : OMap String K :=
  .ofPairs [(iOrigin, 1), (iDestination, 0)]

end Tables

end SampleBom

section Manager

variable {K G Q : Type} [Field K] [LinearOrder K] [FloorRing K] [Libm K] [RandomGeneration K G]
  [EventQueue K Q]

namespace DemandManager

open SampleBom

/-- What the three streams have in common. -/
def sampleBomCharacteristics (iPOSProbDist : OMap String K) (iPrefDepTimeProbDist : OMap ℤ K)
    (iWTP : K) : DemandCharacteristics K :=
  .make (lDTDProbDist K) iPOSProbDist (lChannelProbDist K) (lTripProbDist K) (lStayProbDist K)
    (lFFProbDist K) 0.5 50.0 0.5 50.0 iPrefDepTimeProbDist iWTP (lTimeValueProbDist K)

/-- A stream of the sample, with the number of its events that is expected. -/
def createSampleStream (iKey : DemandStreamKey) (iPOSProbDist : OMap String K)
    (iPrefDepTimeProbDist : OMap ℤ K) (iWTP : K) : EStateM Fault (World K G Q) K := do
  let lDemandDistribution : DemandDistribution K := ⟨60.0, 4.0⟩
  let lRequestDateTimeSeed ← generateSeed
  let lDemandCharacteristicsSeed ← generateSeed
  let lDemandStream ← createDemandStream (G := G) iKey
    (sampleBomCharacteristics iPOSProbDist iPrefDepTimeProbDist iWTP) lDemandDistribution
    lRequestDateTimeSeed lDemandCharacteristicsSeed
  return lDemandStream.demandDistribution.meanNumberOfRequests

def buildSampleBom : EStateM Fault (World K G Q) PUnit := do
  let lDepDate := dayNumber 2010 2 8
  let lCabin := "Y"
  let lSINBKKExpectedNbOfEvents ← createSampleStream (G := G) ⟨"SIN", "BKK", lDepDate, lCabin⟩
    (posProbDist K "SIN" "BKK") (lSINPrefDepTimeProbDist K) 400.0
  let lBKKHKGExpectedNbOfEvents ← createSampleStream (G := G) ⟨"BKK", "HKG", lDepDate, lCabin⟩
    (posProbDist K "BKK" "HKG") (lBKKPrefDepTimeProbDist K) 400.0
  let lSINHKGExpectedNbOfEvents ← createSampleStream (G := G) ⟨"SIN", "HKG", lDepDate, lCabin⟩
    (posProbDist K "SIN" "HKG") (lSINPrefDepTimeProbDist K) 750.0
  addStatus (lSINBKKExpectedNbOfEvents + lBKKHKGExpectedNbOfEvents + lSINHKGExpectedNbOfEvents)

end DemandManager

end Manager

/-! ### The streams of the sample -/

section Usable

open SampleBom

variable {K G Q : Type} [Field K] [LinearOrder K] [IsStrictOrderedRing K] [FloorRing K] [Libm K]
  [RandomGeneration K G] [EventQueue K Q]

lemma covering_ofPairs {T : Type} [LinearOrder T] {l : List (T × K)}
    (hnodup : (l.map Prod.fst).Nodup) (hnonneg : ∀ p ∈ l, 0 ≤ p.2)
    (hsum : 1 ≤ (l.map Prod.snd).sum) : Covering (OMap.ofPairs l) := by
  have hperm := OMap.ofPairs_perm_iff.mpr hnodup
  exact ⟨fun e he => hnonneg e (hperm.mem_iff.mp he), (hperm.map Prod.snd).sum_eq.symm ▸ hsum⟩

lemma lChannelProbDist_covering : Covering (lChannelProbDist K) :=
  covering_ofPairs (by simp) (by norm_num) (by norm_num)

lemma lTripProbDist_covering : Covering (lTripProbDist K) :=
  covering_ofPairs (by simp) (by norm_num) (by norm_num)

lemma lStayProbDist_covering : Covering (lStayProbDist K) :=
  covering_ofPairs (by simp) (by norm_num) (by norm_num)

lemma lFFProbDist_covering : Covering (lFFProbDist K) :=
  covering_ofPairs (by simp) (by norm_num) (by norm_num)

lemma posProbDist_covering {iOrigin iDestination : String} (h : iOrigin ≠ iDestination) :
    Covering (posProbDist K iOrigin iDestination) :=
  covering_ofPairs (by simpa using h) (by norm_num) (by norm_num)

lemma lDTDProbDist_sorted :
    ([((-330 : K), (0 : K)), (-150, 0.1), (-92, 0.2), (-55, 0.3), (-34, 0.4), (-21, 0.5),
      (-12, 0.6), (-6, 0.7), (-3, 0.8), (-1, 0.9), (0, 1)].map Prod.fst).Pairwise (· < ·) := by
  norm_num

/-- The arrival pattern leads up to its last knot but one. -/
lemma lDTDProbDist_leads : (ContinuousAttributeLite.init (lDTDProbDist K)).Leads 9 := by
  have hsize := ContinuousAttributeLite.init_size (lDTDProbDist_sorted (K := K))
  have hc := ContinuousAttributeLite.init_c (lDTDProbDist_sorted (K := K))
  refine ⟨?_, ?_, ?_, fun i _ hi => ?_⟩
  · exact hsize.symm ▸ (by decide : 9 < 11)
  · exact ContinuousAttributeLite.init_v lDTDProbDist_sorted 9
  · have hpos : 0 < (ContinuousAttributeLite.init (lDTDProbDist K)).c 1 := by
      unfold lDTDProbDist
      rw [hc]
      norm_num
    exact (ContinuousAttributeLite.startKnot_le hpos).trans (Nat.zero_le _)
  · unfold lDTDProbDist
    rw [hc, hc]
    interval_cases i <;> norm_num

lemma lDTDProbDist_nonneg : ∀ y ∈ (lDTDProbDist K).values, 0 ≤ y := by
  intro y hy
  obtain ⟨p, hp, rfl⟩ := OMap.mem_ofPairs_values hy
  revert p
  norm_num

lemma sampleBomCharacteristics_usable (hu : UniformLaw K G) (m : DemandGenerationMethod)
    {pos : OMap String K} (hpos : Covering pos) {time : OMap ℤ K} (htime : time.pairs ≠ [])
    (wtp : K) : Usable G m (sampleBomCharacteristics pos time wtp) ⟨60.0, 4.0⟩ := by
  refine ⟨fit_make hu (OMap.ofPairs_pairs_ne_nil (List.cons_ne_nil _ _)) hpos
    lChannelProbDist_covering lTripProbDist_covering lStayProbDist_covering lFFProbDist_covering
    htime (OMap.ofPairs_pairs_ne_nil (List.cons_ne_nil _ _)),
    fun _ => ⟨9, lDTDProbDist_leads⟩, fun _ i hi => c_nonneg lDTDProbDist_nonneg hi, fun _ => ?_⟩
  norm_num

/-- **A stream** of the sample. -/
lemma createSampleStream_ok (hu : UniformLaw K G) (key : DemandStreamKey) {pos : OMap String K}
    (hpos : Covering pos) {time : OMap ℤ K} (htime : time.pairs ≠ []) (wtp : K)
    (w : World K G Q) :
    ∃ w', createSampleStream key pos time wtp w = .ok 60.0 w' ∧ (∀ m, Grown (Usable G m) w w') ∧
      w'.demandStreamList = w.demandStreamList ++ [key] ∧
      w'.expectedTotals = w.expectedTotals := by
  obtain ⟨w', h⟩ : ∃ w', createSampleStream key pos time wtp w = .ok 60.0 w' := ⟨_, rfl⟩
  refine ⟨w', h, fun m => ?_, by cases h; rfl, by cases h; rfl⟩
  unfold createSampleStream at h
  obtain ⟨n, w₁, hn, h₁⟩ := bind_eq_ok.mp h
  obtain ⟨k, w₂, hk, h₂⟩ := bind_eq_ok.mp h₁
  obtain ⟨s, w₃, hs, hpure⟩ := bind_eq_ok.mp h₂
  obtain rfl : w₃ = w' := (EStateM.Result.ok.inj hpure).2
  exact ((generateSeed_grown hn).trans (generateSeed_grown hk)).trans
    (createDemandStream_grown (sampleBomCharacteristics_usable hu m hpos htime wtp) hs)

/-- **The sample**: three streams, that can be used by either method. -/
lemma buildSampleBom_ok (hu : UniformLaw K G) (w : World K G Q) :
    ∃ w', buildSampleBom w = .ok ⟨⟩ w' ∧ (∀ m, Grown (Usable G m) w w') ∧
      w'.demandStreamList = w.demandStreamList ++ [⟨"SIN", "BKK", dayNumber 2010 2 8, "Y"⟩,
        ⟨"BKK", "HKG", dayNumber 2010 2 8, "Y"⟩, ⟨"SIN", "HKG", dayNumber 2010 2 8, "Y"⟩] ∧
      w'.expectedTotals = w.expectedTotals ++ [180] := by
  have hsin : (lSINPrefDepTimeProbDist K).pairs ≠ [] :=
    OMap.ofPairs_pairs_ne_nil (List.cons_ne_nil _ _)
  have hbkk : (lBKKPrefDepTimeProbDist K).pairs ≠ [] :=
    OMap.ofPairs_pairs_ne_nil (List.cons_ne_nil _ _)
  obtain ⟨w₁, h₁, hgrown₁, hlist₁, htotals₁⟩ := createSampleStream_ok (Q := Q) hu
    ⟨"SIN", "BKK", dayNumber 2010 2 8, "Y"⟩
    (posProbDist_covering (show "SIN" ≠ "BKK" by decide)) hsin 400.0 w
  obtain ⟨w₂, h₂, hgrown₂, hlist₂, htotals₂⟩ := createSampleStream_ok (Q := Q) hu
    ⟨"BKK", "HKG", dayNumber 2010 2 8, "Y"⟩
    (posProbDist_covering (show "BKK" ≠ "HKG" by decide)) hbkk 400.0 w₁
  obtain ⟨w₃, h₃, hgrown₃, hlist₃, htotals₃⟩ := createSampleStream_ok (Q := Q) hu
    ⟨"SIN", "HKG", dayNumber 2010 2 8, "Y"⟩
    (posProbDist_covering (show "SIN" ≠ "HKG" by decide)) hsin 750.0 w₂
  have hstatus : (addStatus (60.0 + 60.0 + 60.0) : EStateM Fault (World K G Q) PUnit) w₃
      = .ok ⟨⟩ { w₃ with expectedTotals := w₃.expectedTotals ++ [60.0 + 60.0 + 60.0] } := rfl
  refine ⟨_, ?_, fun m => ((hgrown₁ m).trans (hgrown₂ m)).trans
    ((hgrown₃ m).trans (addStatus_grown hstatus)), ?_, ?_⟩
  · exact (bind_ok h₁).trans ((bind_ok h₂).trans ((bind_ok h₃).trans hstatus))
  · simp [hlist₃, hlist₂, hlist₁]
  · simp only [htotals₃, htotals₂, htotals₁]
    norm_num

end Usable

section Real

variable {G Q : Type} [RandomGeneration ℝ G] [EventQueue ℝ Q] [EventManagerReset Q] [DateFormat]
  [EventDisplay ℝ Q] {m : DemandGenerationMethod}

end Real

end Trademgen
