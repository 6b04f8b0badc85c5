import Trademgen.Lib.Windows

/-!
Uniform points drawn in order.

The points of a sample that are left after the smallest one are again a sample, of what is left of
the interval. So a sample is drawn in order, one variate a point and no sorting, and the numbers of
its points in windows have the multinomial law.
-/

namespace Sampling

open MeasureTheory ProbabilityTheory Set
open scoped ENNReal

/-! ### The next point -/

section Root

variable {x : ℝ} {k : ℕ}

/-- What is left of the interval after the smallest of `k` points, for a variate. -/
noncomputable def root (k : ℕ) (u : ℝ) : ℝ := (1 - u) ^ (1 / (k : ℝ))

lemma measurable_root (k : ℕ) : Measurable (root k) :=
  (measurable_const.sub measurable_id).pow_const _

lemma root_mem {u : ℝ} (h0 : 0 ≤ u) (h1 : u < 1) (k : ℕ) : 0 < root k u ∧ root k u ≤ 1 := by
  unfold root
  exact ⟨Real.rpow_pos_of_pos (sub_pos.mpr h1) _,
    Real.rpow_le_one (sub_nonneg.mpr h1.le) (by linarith) (by positivity)⟩

lemma root_pow {u : ℝ} (h1 : u < 1) (k : ℕ) : root (k + 1) u ^ (k + 1) = 1 - u := by
  rw [root, one_div, Real.rpow_inv_natCast_pow (sub_nonneg.mpr h1.le) k.succ_ne_zero]

/-- The variate that leaves a part of the interval. -/
lemma root_one_sub_pow {a : ℝ} (ha : 0 ≤ a) (k : ℕ) : root (k + 1) (1 - a ^ (k + 1)) = a := by
  rw [root, sub_sub_cancel, one_div, Real.pow_rpow_inv_natCast ha k.succ_ne_zero]

/-- **The smallest of the points**: its density. -/
lemma lintegral_root (k : ℕ) (hx : x < 1) (h : ℝ → ℝ≥0∞) :
    ∫⁻ u in Ico 0 1, h (1 - (1 - x) * root (k + 1) u)
      = ∫⁻ y in Ico x 1, ENNReal.ofReal ((k + 1) * (1 - y) ^ k / (1 - x) ^ (k + 1)) * h y := by
  have hx' : 0 < 1 - x := sub_pos.mpr hx
  set φ : ℝ → ℝ := fun y => 1 - ((1 - y) / (1 - x)) ^ (k + 1) with hφ
  have hderiv (y : ℝ) : HasDerivAt φ ((k + 1) * (1 - y) ^ k / (1 - x) ^ (k + 1)) y := by
    have hlinear : HasDerivAt (fun y => (1 - y) / (1 - x)) (-1 / (1 - x)) y :=
      ((hasDerivAt_id' y).const_sub 1).div_const _
    refine ((hlinear.fun_pow (k + 1)).const_sub 1).congr_deriv ?_
    rw [Nat.add_sub_cancel, div_pow, pow_succ]
    push_cast
    field_simp
  have hinverse : ∀ y ∈ Ico x 1, 1 - (1 - x) * root (k + 1) (φ y) = y := by
    intro y hy
    rw [hφ, root_one_sub_pow (div_nonneg (sub_nonneg.mpr hy.2.le) hx'.le),
      mul_div_cancel₀ _ hx'.ne', sub_sub_cancel]
  have hinj : InjOn φ (Ico x 1) := fun y hy y' hy' heq => by
    rw [← hinverse y hy, heq, hinverse y' hy']
  have himage : φ '' Ico x 1 = Ico 0 1 := by
    ext u
    refine ⟨?_, fun hu => ?_⟩
    · rintro ⟨y, hy, rfl⟩
      have hpos : 0 < (1 - y) / (1 - x) := div_pos (sub_pos.mpr hy.2) hx'
      have hle : (1 - y) / (1 - x) ≤ 1 := (div_le_one hx').mpr (by linarith [hy.1])
      exact ⟨sub_nonneg.mpr (pow_le_one₀ hpos.le hle), sub_lt_self _ (pow_pos hpos _)⟩
    · obtain ⟨hpos, hle⟩ := root_mem hu.1 hu.2 (k + 1)
      refine ⟨1 - (1 - x) * root (k + 1) u, ⟨by nlinarith, by nlinarith⟩, ?_⟩
      simp only [hφ]
      rw [sub_sub_cancel, mul_div_cancel_left₀ _ hx'.ne', root_pow hu.2, sub_sub_cancel]
  rw [← himage, lintegral_image_eq_lintegral_abs_deriv_mul measurableSet_Ico
    (fun y _ => (hderiv y).hasDerivWithinAt) hinj]
  refine setLIntegral_congr_fun measurableSet_Ico fun y hy => ?_
  have hy' : 0 ≤ 1 - y := sub_nonneg.mpr hy.2.le
  simp only [hinverse y hy]
  rw [abs_of_nonneg (by positivity)]

end Root

/-! ### Volumes of windows -/

section Volumes

variable {x : ℝ} {ws : List (ℝ × ℕ)} {t : ℕ → ℝ} {n : ℕ → ℕ}

/-- The volume of the points in order that have the counts of windows. -/
noncomputable def volumes : ℝ → List (ℝ × ℕ) → ℝ≥0∞
  | _, [] => 1
  | x, (t, n) :: ws =>
    ENNReal.ofReal ((max x t - x) ^ n / n.factorial) * volumes (max x t) ws

lemma volumes_of_le {x t : ℝ} (h : x ≤ t) (n : ℕ) (ws : List (ℝ × ℕ)) :
    volumes x ((t, n) :: ws) = ENNReal.ofReal ((t - x) ^ n / n.factorial) * volumes t ws := by
  rw [volumes, max_eq_right h]

lemma volumes_zero (x t : ℝ) (ws : List (ℝ × ℕ)) :
    volumes x ((t, 0) :: ws) = volumes (max x t) ws := by
  simp [volumes]

lemma volumes_of_total (h : total ws = 0) : volumes x ws = 1 := by
  induction ws generalizing x with
  | nil => rfl
  | cons w ws ih =>
    obtain ⟨t, n⟩ := w
    obtain ⟨rfl, hrest⟩ : n = 0 ∧ total ws = 0 := by simpa [total] using h
    rw [volumes_zero, ih hrest]

/-- The volume that a point leaves where it lands. -/
noncomputable def landedVolumes (y : ℝ) (ws : List (ℝ × ℕ)) : ℝ≥0∞ :=
  match land y ws with
  | none => 0
  | some ws' => volumes y ws'

lemma landedVolumes_zero (y t : ℝ) (ws : List (ℝ × ℕ)) :
    landedVolumes y ((t, 0) :: ws) = if y < t then 0 else landedVolumes y ws := by
  unfold landedVolumes
  rw [land_zero]
  split_ifs <;> rfl

lemma landedVolumes_succ (y t : ℝ) (n : ℕ) (ws : List (ℝ × ℕ)) :
    landedVolumes y ((t, n + 1) :: ws)
      = if y < t then ENNReal.ofReal ((t - y) ^ n / n.factorial) * volumes t ws else 0 := by
  unfold landedVolumes
  rw [land_succ]
  split_ifs with hy
  · exact volumes_of_le hy.le n ws
  · rfl

lemma lintegral_pow {t : ℝ} (hxt : x ≤ t) (n : ℕ) :
    ∫⁻ y in Ico x t, ENNReal.ofReal ((t - y) ^ n / n.factorial)
      = ENNReal.ofReal ((t - x) ^ (n + 1) / (n + 1).factorial) := by
  have hderiv (y : ℝ) : HasDerivAt (fun y => -((t - y) ^ (n + 1) / (n + 1).factorial))
      ((t - y) ^ n / n.factorial) y := by
    have hlinear : HasDerivAt (fun y => t - y) (-1) y := (hasDerivAt_id' y).const_sub t
    refine ((hlinear.fun_pow (n + 1)).div_const ((n + 1).factorial : ℝ)).fun_neg.congr_deriv ?_
    rw [Nat.factorial_succ, Nat.add_sub_cancel]
    push_cast
    field_simp
  rw [lintegral_deriv hxt (fun y _ => hderiv y) (by fun_prop) fun y hy => ?_]
  · simp
  · have := sub_nonneg.mpr hy.2
    positivity

/-- The integral over the points that are not before a bound. -/
lemma setLIntegral_ite_zero (x z t : ℝ) (f : ℝ → ℝ≥0∞) :
    ∫⁻ y in Ico x z, (if y < t then 0 else f y) = ∫⁻ y in Ico (max x t) z, f y := by
  rw [← lintegral_indicator measurableSet_Ico, ← lintegral_indicator measurableSet_Ico]
  refine lintegral_congr fun y => ?_
  rcases lt_or_ge y t with hy | hy
  · simp [indicator_apply, hy]
  · simp [indicator_apply, hy, not_lt.mpr hy]

/-- The integral over the points that are before a bound. -/
lemma setLIntegral_zero_ite (x : ℝ) {z t : ℝ} (htz : t ≤ z) (f : ℝ → ℝ≥0∞) :
    ∫⁻ y in Ico x z, (if y < t then f y else 0) = ∫⁻ y in Ico x (max x t), f y := by
  rw [← lintegral_indicator measurableSet_Ico, ← lintegral_indicator measurableSet_Ico]
  refine lintegral_congr fun y => ?_
  rcases lt_or_ge y t with hy | hy
  · simp [indicator_apply, hy, hy.trans_le htz]
  · have hout : ¬ (x ≤ y ∧ y < x) := fun h => absurd h.2 (not_lt.mpr h.1)
    simp [indicator_apply, not_lt.mpr hy, hout]

/-- **A point** lands in one of the windows. -/
lemma lintegral_landedVolumes (hx : x ≤ 1) (hws : ∀ w ∈ ws, w.1 ≤ 1) (htotal : total ws ≠ 0) :
    ∫⁻ y in Ico x 1, landedVolumes y ws = volumes x ws := by
  induction ws generalizing x with
  | nil => exact absurd rfl htotal
  | cons w ws ih =>
    obtain ⟨t, n⟩ := w
    have ht : t ≤ 1 := hws _ List.mem_cons_self
    have hws' : ∀ w ∈ ws, w.1 ≤ 1 := fun w hw => hws w (List.mem_cons_of_mem _ hw)
    cases n with
    | zero =>
      simp only [landedVolumes_zero]
      rw [setLIntegral_ite_zero, volumes_zero]
      exact ih (max_le hx ht) hws' (by simpa [total] using htotal)
    | succ n =>
      simp only [landedVolumes_succ]
      rw [setLIntegral_zero_ite x ht, lintegral_mul_const _ (by fun_prop), volumes]
      rcases le_total x t with hxt | htx
      · rw [max_eq_right hxt, lintegral_pow hxt]
      · simp [max_eq_left htx]

lemma volumes_windows (n : ℕ → ℕ) (m : ℕ) : ∀ {i : ℕ},
    (∀ j, i ≤ j → j < i + m → t j ≤ t (j + 1)) →
    volumes (t i) (windows t n i m) = ∏ j ∈ Finset.range m,
      ENNReal.ofReal ((t (i + j + 1) - t (i + j)) ^ n (i + j) / (n (i + j)).factorial) := by
  induction m with
  | zero => simp [windows, volumes]
  | succ m ih =>
    intro i ht
    have hrest := ih (i := i + 1) fun j hj hj' => ht j (by omega) (by omega)
    rw [windows, volumes_of_le (ht i le_rfl (by omega)), hrest, Finset.prod_range_succ', mul_comm]
    simp only [add_zero, Nat.add_right_comm i 1, Nat.add_assoc i _ 1]

/-- The volume of the points with some counts, of the volume of all: the multinomial law. -/
lemma ofReal_volumes {m k : ℕ} (hx : t 0 < 1) (ht : ∀ j < m, t j ≤ t (j + 1))
    (hn : ∑ j ∈ Finset.range m, n j = k) :
    ENNReal.ofReal (k.factorial / (1 - t 0) ^ k) * volumes (t 0) (windows t n 0 m)
      = ENNReal.ofReal (Nat.multinomial (Finset.range m) n *
        ∏ j ∈ Finset.range m, ((t (j + 1) - t j) / (1 - t 0)) ^ n j) := by
  have hx' : 0 < 1 - t 0 := sub_pos.mpr hx
  have hpos : ∀ j ∈ Finset.range m, 0 ≤ (t (j + 1) - t j) ^ n j / (n j).factorial := fun j hj =>
    div_nonneg (pow_nonneg (sub_nonneg.mpr (ht j (Finset.mem_range.mp hj))) _) (Nat.cast_nonneg _)
  rw [volumes_windows n m fun j _ hj => ht j (by omega)]
  simp only [zero_add]
  rw [← ENNReal.ofReal_prod_of_nonneg hpos, ← ENNReal.ofReal_mul (by positivity)]
  congr 1
  have hmultinomial : (∏ j ∈ Finset.range m, ((n j).factorial : ℝ)) *
      Nat.multinomial (Finset.range m) n = k.factorial := by
    rw [← hn]
    exact_mod_cast Nat.multinomial_spec (Finset.range m) n
  have hne : ∏ j ∈ Finset.range m, ((n j).factorial : ℝ) ≠ 0 :=
    Finset.prod_ne_zero_iff.mpr fun j _ => Nat.cast_ne_zero.mpr (Nat.factorial_ne_zero _)
  simp only [div_pow]
  rw [Finset.prod_div_distrib, Finset.prod_div_distrib, Finset.prod_pow_eq_pow_sum, hn,
    ← hmultinomial]
  field_simp

end Volumes

/-! ### Draws in order -/

section InOrder

variable {S : Type} {next : S → ℝ × S} {factor factor' : ℕ → ℝ → ℝ} {x : ℝ} {k : ℕ} {g : S}
  {ws : List (ℝ × ℕ)}

/-- The points drawn in order after `x`: of the `k` that are left to draw, the next one leaves a
factor of the interval. -/
def inOrder (factor : ℕ → ℝ → ℝ) (next : S → ℝ × S) : ℕ → ℝ → S → List ℝ
  | 0, _, _ => []
  | k + 1, x, g =>
    (1 - (1 - x) * factor (k + 1) (next g).1) ::
      inOrder factor next k (1 - (1 - x) * factor (k + 1) (next g).1) (next g).2

/-- Two ways to draw agree on the factors of all the points. -/
def Agree (factor factor' : ℕ → ℝ → ℝ) (next : S → ℝ × S) : ℕ → S → Prop
  | 0, _ => True
  | k + 1, g => factor (k + 1) (next g).1 = factor' (k + 1) (next g).1 ∧
      Agree factor factor' next k (next g).2

lemma Agree.inOrder_eq (h : Agree factor factor' next k g) (x : ℝ) :
    inOrder factor next k x g = inOrder factor' next k x g := by
  induction k generalizing g x with
  | zero => rfl
  | succ k ih => rw [inOrder, inOrder, h.1, ih h.2]

/-- The points rise, and stay in the interval. -/
lemma inOrder_sorted (hfactor : ∀ k g, 0 < factor (k + 1) (next g).1 ∧
    factor (k + 1) (next g).1 ≤ 1) (hx : x < 1) :
    (inOrder factor next k x g).Pairwise (· ≤ ·) ∧
      ∀ y ∈ inOrder factor next k x g, x ≤ y ∧ y < 1 := by
  induction k generalizing g x with
  | zero => simp [inOrder]
  | succ k ih =>
    obtain ⟨hpos, hle⟩ := hfactor k g
    have hx' : 0 < 1 - x := sub_pos.mpr hx
    have hxy : x ≤ 1 - (1 - x) * factor (k + 1) (next g).1 := by nlinarith
    have hy : 1 - (1 - x) * factor (k + 1) (next g).1 < 1 := by nlinarith
    obtain ⟨hsorted, hmem⟩ := ih (g := (next g).2) hy
    refine ⟨List.pairwise_cons.mpr ⟨fun y hy => (hmem y hy).1, hsorted⟩,
      List.forall_mem_cons.mpr ⟨⟨hxy, hy⟩, fun y hy => ⟨hxy.trans (hmem y hy).1, (hmem y hy).2⟩⟩⟩

variable [MeasurableSpace S] {P : Measure S} [IsProbabilityMeasure P]

lemma measurableSet_inOrder (hnext : Measurable next) (hfactor : ∀ k, Measurable (factor k))
    (k : ℕ) (ws : List (ℝ × ℕ)) :
    MeasurableSet {p : ℝ × S | Counts ws (inOrder factor next k p.1 p.2)} := by
  induction k generalizing ws with
  | zero => simp only [inOrder, Counts, MeasurableSet.const]
  | succ k ih =>
    have hdraw : Measurable fun p : ℝ × S => next p.2 := hnext.comp measurable_snd
    have hpoint : Measurable fun p : ℝ × S => 1 - (1 - p.1) * factor (k + 1) (next p.2).1 :=
      measurable_const.sub ((measurable_const.sub measurable_fst).mul
        ((hfactor (k + 1)).comp hdraw.fst))
    exact (hpoint.prodMk hdraw.snd) (measurableSet_land ws
      (A := fun ws' p => Counts ws' (inOrder factor next k p.1 p.2)) fun ws' _ => ih ws')

/-- **The law of the draws in order**: the counts of windows have the volume of the points that
have them, of the volume of all. -/
theorem measure_inOrder (hsource : Source (volume.restrict (Ico 0 1)) P next) (hx : x < 1)
    (hws : ∀ w ∈ ws, w.1 ≤ 1) (htotal : total ws = k) :
    P {g | Counts ws (inOrder root next k x g)}
      = ENNReal.ofReal (k.factorial / (1 - x) ^ k) * volumes x ws := by
  induction k generalizing x ws with
  | zero => simp [inOrder, Counts, htotal, volumes_of_total htotal]
  | succ k ih =>
    have hx' : 0 < 1 - x := sub_pos.mpr hx
    have hpoint : Measurable fun p : ℝ × S => 1 - (1 - x) * root (k + 1) p.1 :=
      measurable_const.sub (((measurable_root _).comp measurable_fst).const_mul _)
    have hset := (hpoint.prodMk measurable_snd) (measurableSet_land ws
      (A := fun ws' p => Counts ws' (inOrder root next k p.1 p.2))
      fun ws' _ => measurableSet_inOrder hsource.measurable measurable_root k ws')
    refine (hsource.measure hset).trans ((lintegral_root k hx fun y =>
      P {g | ∃ ws', land y ws = some ws' ∧ Counts ws' (inOrder root next k y g)}).trans ?_)
    rw [← lintegral_landedVolumes hx.le hws (by omega),
      ← lintegral_const_mul' _ _ ENNReal.ofReal_ne_top]
    refine setLIntegral_congr_fun measurableSet_Ico fun y hy => ?_
    have hy' : 0 < 1 - y := sub_pos.mpr hy.2
    cases hland : land y ws with
    | none => simp [landedVolumes, hland]
    | some ws' =>
      obtain ⟨htotal', hends⟩ := land_spec hland
      have hws' : ∀ w ∈ ws', w.1 ≤ 1 := fun w hw => by
        obtain ⟨w', hw', heq⟩ := hends w hw
        exact heq ▸ hws w' hw'
      have hrest := ih hy.2 hws' (by omega)
      have hfactor : (k + 1) * (1 - y) ^ k / (1 - x) ^ (k + 1) * (k.factorial / (1 - y) ^ k)
          = (k + 1).factorial / (1 - x) ^ (k + 1) := by
        rw [Nat.factorial_succ]
        push_cast
        field_simp
      simp only [landedVolumes, hland, Option.some.injEq, exists_eq_left']
      rw [hrest, ← mul_assoc, ← ENNReal.ofReal_mul (by positivity), hfactor]

/-- The probability that two ways to draw agree. -/
lemma measure_agree {ν : Measure ℝ} [SFinite ν] (hsource : Source ν P next)
    (hfactor : ∀ k, MeasurableSet {u | factor k u = factor' k u}) (k : ℕ) :
    MeasurableSet {g | Agree factor factor' next k g} ∧
      P {g | Agree factor factor' next k g}
        = ∏ i ∈ Finset.range k, ν {u | factor (i + 1) u = factor' (i + 1) u} := by
  induction k with
  | zero => simp [Agree]
  | succ k ih =>
    obtain ⟨hmeas, hlaw⟩ := ih
    have hset := (hfactor (k + 1)).prod hmeas
    have heq : {g | Agree factor factor' next (k + 1) g} = preimage next
        ({u | factor (k + 1) u = factor' (k + 1) u} ×ˢ {g | Agree factor factor' next k g}) := rfl
    rw [heq, ← Measure.map_apply hsource.measurable hset, hsource.law, Measure.prod_prod, hlaw,
      Finset.prod_range_succ, mul_comm]
    exact ⟨hsource.measurable hset, rfl⟩

end InOrder

/-! ### Draws kept from standing still -/

section Clamped

variable {S : Type} {next : S → ℝ × S} {c x : ℝ} {k : ℕ} {g : S}

/-- The factor left, but not more than a bound. -/
noncomputable def clamped (c : ℝ) (k : ℕ) (u : ℝ) : ℝ := min (root k u) c

lemma volume_root_eq_clamped (hc0 : 0 < c) (hc1 : c ≤ 1) (k : ℕ) :
    volume.restrict (Ico 0 1) {u | root (k + 1) u = clamped c (k + 1) u}
      = ENNReal.ofReal (c ^ (k + 1)) := by
  have hmeas : MeasurableSet {u | root (k + 1) u = clamped c (k + 1) u} :=
    measurableSet_eq_fun (measurable_root _) ((measurable_root _).min measurable_const)
  have hset : {u | root (k + 1) u = clamped c (k + 1) u} ∩ Ico 0 1 = Ico (1 - c ^ (k + 1)) 1 := by
    ext u
    have hle : c ^ (k + 1) ≤ 1 := pow_le_one₀ hc0.le hc1
    have hiff (h0 : 0 ≤ u) (h1 : u < 1) :
        root (k + 1) u = clamped c (k + 1) u ↔ 1 - c ^ (k + 1) ≤ u := by
      rw [clamped, left_eq_inf, ← pow_le_pow_iff_left₀ (root_mem h0 h1 _).1.le hc0.le
        k.succ_ne_zero, root_pow h1, sub_le_comm]
    refine ⟨fun h => ⟨(hiff h.2.1 h.2.2).mp h.1, h.2.2⟩, fun h => ?_⟩
    have h0 : 0 ≤ u := (sub_nonneg.mpr hle).trans h.1
    exact ⟨(hiff h0 h.2).mpr h.1, h0, h.2⟩
  rw [Measure.restrict_apply hmeas, hset, Real.volume_Ico, sub_sub_cancel]

variable [MeasurableSpace S] {P : Measure S} [IsProbabilityMeasure P]

/-- The bound is met by all the factors of a draw but so seldom. -/
lemma measure_agree_clamped (hsource : Source (volume.restrict (Ico 0 1)) P next) (hc0 : 0 < c)
    (hc1 : c ≤ 1) (k : ℕ) :
    P.real {g | Agree root (clamped c) next k g}ᶜ = 1 - c ^ (k * (k + 1) / 2) := by
  have hset (k : ℕ) : MeasurableSet {u | root k u = clamped c k u} :=
    measurableSet_eq_fun (measurable_root k) ((measurable_root k).min measurable_const)
  obtain ⟨hmeas, hlaw⟩ := measure_agree hsource hset k
  have hsum : ∑ i ∈ Finset.range k, (i + 1) = k * (k + 1) / 2 := by
    have h := Finset.sum_range_succ' (fun i => i) k
    rw [Finset.sum_range_id, Nat.add_sub_cancel, mul_comm] at h
    simpa using h.symm
  have hpos : ∀ i ∈ Finset.range k, 0 ≤ c ^ (i + 1) := fun i _ => pow_nonneg hc0.le _
  simp only [volume_root_eq_clamped hc0 hc1] at hlaw
  rw [← ENNReal.ofReal_prod_of_nonneg hpos, Finset.prod_pow_eq_pow_sum, hsum] at hlaw
  rw [probReal_compl_eq_one_sub hmeas, measureReal_def, hlaw,
    ENNReal.toReal_ofReal (pow_nonneg hc0.le _)]

/-- Events that agree outside a third one. -/
lemma abs_measureReal_sub_le {A B C : Set S} (h : ∀ g ∉ C, (g ∈ A ↔ g ∈ B)) :
    |P.real A - P.real B| ≤ P.real C := by
  have hle {A B : Set S} (h : ∀ g ∉ C, g ∈ A → g ∈ B) : P.real A ≤ P.real B + P.real C := by
    refine (measureReal_mono fun g hg => ?_).trans (measureReal_union_le B C)
    by_cases hC : g ∈ C
    · exact .inr hC
    · exact .inl (h g hC hg)
  have hAB := hle fun g hg => (h g hg).mp
  have hBA := hle fun g hg => (h g hg).mpr
  rw [abs_sub_le_iff]
  constructor <;> linarith

/-- **The numbers of points between bounds** have the multinomial law, but for the draws that meet
the bound. -/
theorem abs_measure_clamped_sub (hsource : Source (volume.restrict (Ico 0 1)) P next)
    (hvariate : ∀ g, 0 ≤ (next g).1 ∧ (next g).1 < 1) (hc0 : 0 < c) (hc1 : c ≤ 1) {t : ℕ → ℝ}
    (hx : t 0 < 1) {m : ℕ} (ht : ∀ j < m, t j ≤ t (j + 1)) (hm : t m = 1) {n : ℕ → ℕ}
    (hn : ∑ j ∈ Finset.range m, n j = k) :
    |P.real {g | ∀ j < m,
        (inOrder (clamped c) next k (t 0) g).countP (fun y => t j ≤ y ∧ y < t (j + 1)) = n j}
      - Nat.multinomial (Finset.range m) n
        * ∏ j ∈ Finset.range m, ((t (j + 1) - t j) / (1 - t 0)) ^ n j|
      ≤ 1 - c ^ (k * (k + 1) / 2) := by
  set A : Set S := {g | ∀ j < m,
    (inOrder (clamped c) next k (t 0) g).countP (fun y => t j ≤ y ∧ y < t (j + 1)) = n j} with hA
  set B : Set S := {g | ∀ j < m,
    (inOrder root next k (t 0) g).countP (fun y => t j ≤ y ∧ y < t (j + 1)) = n j} with hB
  have hwindows : B = {g | Counts (windows t n 0 m) (inOrder root next k (t 0) g)} := by
    ext g
    obtain ⟨hsorted, hmem⟩ := inOrder_sorted (k := k) (g := g) (fun k g =>
      root_mem (hvariate g).1 (hvariate g).2 (k + 1)) hx
    have hmem' : ∀ y ∈ inOrder root next k (t 0) g, t 0 ≤ y ∧ y < t (0 + m) := by
      rwa [zero_add, hm]
    refine Iff.trans ?_ (counts_windows n m (fun j _ hj => ht j (by omega)) hsorted hmem').symm
    simp [hB]
  have hlaw : P.real B = Nat.multinomial (Finset.range m) n
      * ∏ j ∈ Finset.range m, ((t (j + 1) - t j) / (1 - t 0)) ^ n j := by
    have htotal : total (windows t n 0 m) = k := by simpa [hn] using total_windows t n m 0
    have hpos : ∀ j ∈ Finset.range m, 0 ≤ ((t (j + 1) - t j) / (1 - t 0)) ^ n j := fun j hj =>
      pow_nonneg (div_nonneg (sub_nonneg.mpr (ht j (Finset.mem_range.mp hj)))
        (sub_nonneg.mpr hx.le)) _
    rw [hwindows, measureReal_def, measure_inOrder hsource hx (hm ▸ windows_le ht) htotal,
      ofReal_volumes hx ht hn, ENNReal.toReal_ofReal
        (mul_nonneg (Nat.cast_nonneg _) (Finset.prod_nonneg hpos))]
  have hagree : ∀ g, Agree root (clamped c) next k g → (g ∈ A ↔ g ∈ B) := by
    intro g hg
    simp only [hA, hB, mem_ofPred_eq, hg.inOrder_eq]
  rw [← hlaw, ← measure_agree_clamped hsource hc0 hc1 k]
  exact abs_measureReal_sub_le fun g hg => hagree g (not_not.mp hg)

end Clamped

end Sampling
