import Mathlib

/-!
Sources of independent variates.

A source gives a variate and its next state. When the pair of them is distributed as a variate and
a state that know nothing of each other, the draws are independent, however many of them a program
takes and whatever it makes the next one depend on.
-/

namespace Sampling

open MeasureTheory ProbabilityTheory Set
open scoped ENNReal

/-! ### Sources -/

/-- States distributed by `P` are a source of variates distributed by `ν`. -/
structure Source {S X : Type} [MeasurableSpace S] [MeasurableSpace X] (ν : Measure X)
    (P : Measure S) (next : S → X × S) : Prop where
  measurable : Measurable next
  law : P.map next = ν.prod P

section Source

variable {S X : Type} [MeasurableSpace S] [MeasurableSpace X] {ν : Measure X} {P : Measure S}
  {next : S → X × S}

/-- **A draw**: what happens from there on is averaged over the variate. -/
lemma Source.measure [SFinite P] (h : Source ν P next) {A : Set (X × S)} (hA : MeasurableSet A) :
    P {g | next g ∈ A} = ∫⁻ x, P {g | (x, g) ∈ A} ∂ν := by
  change P (preimage next A) = _
  rw [← Measure.map_apply h.measurable hA, h.law, Measure.prod_apply hA]
  rfl

/-- A sequence from its first term and the others. -/
def prepend (p : ℝ × (ℕ → ℝ)) : ℕ → ℝ
  | 0 => p.1
  | i + 1 => p.2 i

lemma measurable_prepend : Measurable prepend := by
  refine measurable_pi_lambda _ fun i => ?_
  cases i with
  | zero => exact measurable_fst
  | succ i => exact (measurable_pi_apply i).comp measurable_snd

lemma map_prepend (μ : Measure ℝ) [IsProbabilityMeasure μ] :
    (μ.prod (Measure.infinitePi fun _ : ℕ => μ)).map prepend
      = Measure.infinitePi fun _ : ℕ => μ := by
  refine Measure.eq_infinitePi _ fun s t ht => ?_
  -- a box bounds finitely many terms, those after the first by a box of the other terms
  set u : ℕ → Set ℝ := fun i => if i ∈ s then t i else univ
  have hmem (i : ℕ) (hi : i ∈ s) : u i = t i := if_pos hi
  have hother (i : ℕ) (hi : i ∉ s) : u i = univ := if_neg hi
  have hmeas (i : ℕ) : MeasurableSet (u i) := by
    by_cases hi : i ∈ s
    · exact hmem i hi ▸ ht i
    · exact hother i hi ▸ .univ
  obtain ⟨N, hN⟩ : ∃ N, s ⊆ Finset.range (N + 1) :=
    ⟨s.sup id, fun i hi => Finset.mem_range.mpr (Nat.lt_succ_of_le (Finset.le_sup (f := id) hi))⟩
  have hbox : preimage prepend (Set.pi s t)
      = u 0 ×ˢ Set.pi (Finset.range N : Finset ℕ) fun i => u (i + 1) := by
    have hall : Set.pi s t = Set.pi (Finset.range (N + 1) : Finset ℕ) u := by
      ext g
      refine ⟨fun hg i _ => ?_, fun hg i hi => hmem i hi ▸ hg i (hN hi)⟩
      by_cases hi : i ∈ s
      · exact hmem i hi ▸ hg i hi
      · exact hother i hi ▸ mem_univ _
    rw [hall]
    ext p
    refine ⟨fun hp => ⟨hp 0 (by simp), fun i hi => hp (i + 1) (by simpa using hi)⟩,
      fun hp i hi => ?_⟩
    cases i with
    | zero => exact hp.1
    | succ i => exact hp.2 i (by simpa using hi)
  have hprod : ∏ i ∈ s, μ (t i) = ∏ i ∈ Finset.range (N + 1), μ (u i) := by
    rw [← Finset.prod_subset hN fun i _ hi => by rw [hother i hi, measure_univ]]
    exact Finset.prod_congr rfl fun i hi => by rw [hmem i hi]
  rw [Measure.map_apply measurable_prepend (.pi s.countable_toSet fun i _ => ht i), hbox,
    Measure.prod_prod, Measure.infinitePi_pi _ fun i _ => hmeas (i + 1), hprod,
    Finset.prod_range_succ', mul_comm]

/-- The sequences of independent variates are a source: it gives the first, and goes on with the
others. -/
lemma Source.stream (μ : Measure ℝ) [IsProbabilityMeasure μ] {f : ℝ → X} (hf : Measurable f) :
    Source (μ.map f) (Measure.infinitePi fun _ : ℕ => μ)
      fun g => (f (g 0), fun i => g (i + 1)) := by
  have hsplit : Measurable fun g : ℕ → ℝ => (g 0, fun i => g (i + 1)) := by fun_prop
  refine ⟨(hf.comp measurable_fst).prodMk measurable_snd |>.comp hsplit, ?_⟩
  have hlaw : (Measure.infinitePi fun _ : ℕ => μ).map (fun g => (g 0, fun i => g (i + 1)))
      = μ.prod (Measure.infinitePi fun _ => μ) := by
    conv_lhs => rw [← map_prepend μ]
    rw [Measure.map_map hsplit measurable_prepend]
    exact Measure.map_id
  have hmap := Measure.map_prod_map μ (Measure.infinitePi fun _ : ℕ => μ) hf measurable_id
  rw [Measure.map_id, ← hlaw, Measure.map_map (hf.prodMap measurable_id) hsplit] at hmap
  exact hmap.symm

end Source

/-- The integral of a derivative that is not negative. -/
lemma lintegral_deriv {F F' : ℝ → ℝ} {a b : ℝ} (hab : a ≤ b)
    (hF : ∀ x ∈ Icc a b, HasDerivAt F (F' x) x) (hcont : ContinuousOn F' (Icc a b))
    (hpos : ∀ x ∈ Icc a b, 0 ≤ F' x) :
    ∫⁻ x in Ico a b, ENNReal.ofReal (F' x) = ENNReal.ofReal (F b - F a) := by
  have hint : IntervalIntegrable F' volume a b := hcont.intervalIntegrable_of_Icc hab
  have hsub : ∫ x in a..b, F' x = F b - F a :=
    intervalIntegral.integral_eq_sub_of_hasDerivAt (by rwa [uIcc_of_le hab]) hint
  rw [← hsub, intervalIntegral.integral_of_le hab, setLIntegral_congr Ico_ae_eq_Ioc,
    ofReal_integral_eq_lintegral_ofReal
      ((intervalIntegrable_iff_integrableOn_Ioc_of_le hab).mp hint)]
  exact (ae_restrict_mem measurableSet_Ioc).mono fun x hx => hpos x (Ioc_subset_Icc_self hx)

/-! ### Exponential variates -/

section Exponential

variable {r l : ℝ}

lemma lintegral_expMeasure (r : ℝ) {f : ℝ → ℝ≥0∞} (hf : Measurable f) :
    ∫⁻ e, f e ∂expMeasure r = ∫⁻ e in Ici 0, ENNReal.ofReal (r * Real.exp (-(r * e))) * f e := by
  have hpdf : expMeasure r = volume.withDensity (exponentialPDF r) := rfl
  have hmeas : Measurable (exponentialPDF r) := (measurable_exponentialPDFReal r).ennreal_ofReal
  rw [hpdf, lintegral_withDensity_eq_lintegral_mul _ hmeas hf,
    ← lintegral_indicator measurableSet_Ici]
  refine lintegral_congr fun e => ?_
  rcases lt_or_ge e 0 with he | he
  · rw [Pi.mul_apply, exponentialPDF_of_neg he, zero_mul,
      indicator_of_notMem (notMem_Ici.mpr he)]
  · rw [Pi.mul_apply, exponentialPDF_of_nonneg he, indicator_of_mem (mem_Ici.mpr he)]

lemma lintegral_expMeasure_congr (r : ℝ) {f h : ℝ → ℝ≥0∞} (heq : ∀ e, 0 ≤ e → f e = h e) :
    ∫⁻ e, f e ∂expMeasure r = ∫⁻ e, h e ∂expMeasure r := by
  have hmeas : Measurable (exponentialPDF r) := (measurable_exponentialPDFReal r).ennreal_ofReal
  refine lintegral_congr_ae ((ae_withDensity_iff hmeas).mpr (.of_forall fun e hpdf => heq e ?_))
  by_contra hneg
  exact hpdf (exponentialPDF_of_neg (not_le.mp hneg))

/-- **An exponential variate** has no memory: beyond a bound, what is left of it is a variate. -/
lemma lintegral_expMeasure_ite (r : ℝ) (hl : 0 ≤ l) {f h : ℝ → ℝ≥0∞} (hf : Measurable f)
    (hh : Measurable h) :
    ∫⁻ e, (if e < l then f e else h (e - l)) ∂expMeasure r
      = (∫⁻ e in Ico 0 l, ENNReal.ofReal (r * Real.exp (-(r * e))) * f e)
        + ENNReal.ofReal (Real.exp (-(r * l))) * ∫⁻ e, h e ∂expMeasure r := by
  have hite : Measurable fun e => if e < l then f e else h (e - l) :=
    hf.ite measurableSet_Iio (hh.comp (by fun_prop))
  have hdensity : Measurable fun e => ENNReal.ofReal (r * Real.exp (-(r * e))) * h e := by fun_prop
  rw [lintegral_expMeasure r hite, lintegral_expMeasure r hh, ← Ico_union_Ici_eq_Ici hl,
    lintegral_union measurableSet_Ici
      (disjoint_left.mpr fun e he he' => absurd he.2 (not_lt.mpr he'))]
  congr 1
  · refine setLIntegral_congr_fun measurableSet_Ico fun e he => ?_
    simp only [if_pos he.2]
  · rw [Ico_union_Ici_eq_Ici hl, ← lintegral_const_mul _ hdensity,
      ← lintegral_indicator measurableSet_Ici, ← lintegral_indicator measurableSet_Ici,
      ← lintegral_add_right_eq_self _ l]
    refine lintegral_congr fun e => ?_
    rcases lt_or_ge e 0 with he | he
    · rw [indicator_of_notMem (by simpa using he), indicator_of_notMem (by simpa using he)]
    · rw [indicator_of_mem (by simpa using he), indicator_of_mem (by simpa using he),
        if_neg (by simpa using he), add_sub_cancel_right, ← mul_assoc,
        ← ENNReal.ofReal_mul (Real.exp_pos _).le]
      congr 2
      rw [mul_left_comm, ← Real.exp_add]
      ring_nf

lemma lintegral_expMeasure_ite_const (hr : 0 < r) (hl : 0 ≤ l) {f : ℝ → ℝ≥0∞} (hf : Measurable f)
    (c : ℝ≥0∞) : ∫⁻ e, (if e < l then f e else c) ∂expMeasure r
      = (∫⁻ e in Ico 0 l, ENNReal.ofReal (r * Real.exp (-(r * e))) * f e)
        + ENNReal.ofReal (Real.exp (-(r * l))) * c := by
  have := isProbabilityMeasure_expMeasure hr
  rw [lintegral_expMeasure_ite r hl hf measurable_const, lintegral_const, measure_univ, mul_one]

/-- An exponential variate of the rate one, divided by a rate. -/
lemma map_expMeasure (hr : 0 < r) :
    (expMeasure 1).map (fun e => max e 0 / r) = expMeasure r := by
  have hmeas : Measurable fun e : ℝ => max e 0 / r := by fun_prop
  have := isProbabilityMeasure_expMeasure hr
  have := isProbabilityMeasure_expMeasure (one_pos : (0 : ℝ) < 1)
  have : IsProbabilityMeasure ((expMeasure 1).map _) :=
    Measure.isProbabilityMeasure_map hmeas.aemeasurable
  refine Measure.eq_of_cdf _ _ ?_
  ext x
  rw [cdf_eq_real, map_measureReal_apply hmeas measurableSet_Iic, cdf_expMeasure_eq hr]
  split_ifs with hx
  · have hset : preimage (fun e : ℝ => max e 0 / r) (Iic x) = Iic (r * x) := by
      ext e
      rw [mem_preimage, mem_Iic, mem_Iic, div_le_iff₀' hr, max_le_iff]
      exact and_iff_left (mul_nonneg hr.le hx)
    rw [hset, ← cdf_eq_real, cdf_expMeasure_eq one_pos, if_pos (mul_nonneg hr.le hx), one_mul]
  · have hset : preimage (fun e : ℝ => max e 0 / r) (Iic x) = ∅ := by
      refine eq_empty_of_forall_notMem fun e he => hx ?_
      exact (div_nonneg (le_max_right e 0) hr.le).trans he
    rw [hset, measureReal_empty]

/-- The uniform variate of an exponential one. -/
lemma map_expMeasure_uniform :
    (expMeasure 1).map (fun e => 1 - Real.exp (-max e 0)) = volume.restrict (Ico 0 1) := by
  have hmeas : Measurable fun e : ℝ => 1 - Real.exp (-max e 0) := by fun_prop
  have := isProbabilityMeasure_expMeasure (one_pos : (0 : ℝ) < 1)
  have : IsProbabilityMeasure ((expMeasure 1).map _) :=
    Measure.isProbabilityMeasure_map hmeas.aemeasurable
  have : IsProbabilityMeasure (volume.restrict (Ico (0 : ℝ) 1)) := ⟨by simp⟩
  refine Measure.eq_of_cdf _ _ ?_
  ext x
  rw [cdf_eq_real, cdf_eq_real, map_measureReal_apply hmeas measurableSet_Iic,
    measureReal_restrict_apply measurableSet_Iic]
  have hexp (e : ℝ) : 0 < Real.exp (-max e 0) ∧ Real.exp (-max e 0) ≤ 1 :=
    ⟨Real.exp_pos _, Real.exp_le_one_iff.mpr (neg_nonpos.mpr (le_max_right e 0))⟩
  rcases lt_or_ge x 0 with hx0 | hx0
  · have hleft : preimage (fun e : ℝ => 1 - Real.exp (-max e 0)) (Iic x) = ∅ :=
      eq_empty_of_forall_notMem fun e he => by
        have : 1 - Real.exp (-max e 0) ≤ x := he
        linarith [(hexp e).2]
    have hright : Iic x ∩ Ico (0 : ℝ) 1 = ∅ :=
      eq_empty_of_forall_notMem fun u hu => absurd (hu.2.1.trans hu.1) (not_le.mpr hx0)
    rw [hleft, hright, measureReal_empty, measureReal_empty]
  rcases lt_or_ge x 1 with hx1 | hx1
  · have hlog : 0 ≤ -Real.log (1 - x) :=
      neg_nonneg.mpr (Real.log_nonpos (by linarith) (by linarith))
    have hleft : preimage (fun e : ℝ => 1 - Real.exp (-max e 0)) (Iic x)
        = Iic (-Real.log (1 - x)) := by
      ext e
      rw [mem_preimage, mem_Iic, mem_Iic, sub_le_comm, ← Real.log_le_iff_le_exp (by linarith),
        le_neg, max_le_iff]
      exact and_iff_left hlog
    have hright : Iic x ∩ Ico (0 : ℝ) 1 = Icc 0 x := by
      ext u
      exact ⟨fun hu => ⟨hu.2.1, hu.1⟩, fun hu => ⟨hu.2, hu.1, hu.2.trans_lt hx1⟩⟩
    rw [hleft, hright, ← cdf_eq_real, cdf_expMeasure_eq one_pos, if_pos hlog, one_mul, neg_neg,
      Real.exp_log (by linarith), Real.volume_real_Icc_of_le hx0]
    ring
  · have hleft : preimage (fun e : ℝ => 1 - Real.exp (-max e 0)) (Iic x) = univ :=
      eq_univ_of_forall fun e => by
        have : 1 - Real.exp (-max e 0) ≤ x := by linarith [(hexp e).1]
        exact this
    have hright : Iic x ∩ Ico (0 : ℝ) 1 = Ico 0 1 :=
      inter_eq_self_of_subset_right fun u hu => hu.2.le.trans hx1
    rw [hleft, hright, probReal_univ, Real.volume_real_Ico_of_le zero_le_one, sub_zero]

end Exponential

end Sampling
