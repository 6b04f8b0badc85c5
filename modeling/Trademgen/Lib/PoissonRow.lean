import Trademgen.Lib.Windows

/-!
Points laid along a row of pieces by exponential variates.

Each piece of the row has its rate. A variate that goes beyond its piece is given up for one at the
start of the next piece; as exponential variates have no memory, the points are those of a Poisson
process all the same: their numbers in windows one after the other are independent, and each has the
Poisson law.
-/

namespace Sampling

open MeasureTheory ProbabilityTheory Set
open scoped ENNReal

/-! ### Poisson masses -/

section Masses

variable {r l m : ℝ}

/-- The probability of `n` in the Poisson law of the mean `m`. -/
noncomputable def poissonMass (n : ℕ) (m : ℝ) : ℝ := Real.exp (-m) * m ^ n / n.factorial

lemma measurable_poissonMass (n : ℕ) : Measurable (poissonMass n) := by
  unfold poissonMass
  fun_prop

lemma exp_mul_exp_sub (x m : ℝ) : Real.exp (-x) * Real.exp (-(m - x)) = Real.exp (-m) := by
  rw [← Real.exp_add]
  ring_nf

/-- No variate falls in a piece: the variate is beyond it. -/
lemma lintegral_poissonMass_zero (hr : 0 < r) (hl : 0 ≤ l) :
    ∫⁻ e, (if e < l then 0 else ENNReal.ofReal (poissonMass 0 (m - r * l))) ∂expMeasure r
      = ENNReal.ofReal (poissonMass 0 m) := by
  have hmass (m : ℝ) : poissonMass 0 m = Real.exp (-m) := by simp [poissonMass]
  rw [lintegral_expMeasure_ite_const hr hl measurable_const,
    ← ENNReal.ofReal_mul (Real.exp_pos _).le, hmass, hmass, exp_mul_exp_sub]
  simp

/-- The mean that is left falls at the rate of the piece, and a power of it with it. -/
lemma hasDerivAt_pow_rest (r m e : ℝ) (n : ℕ) :
    HasDerivAt (fun e => -(Real.exp (-m) * (m - r * e) ^ (n + 1) / (n + 1).factorial))
      (r * Real.exp (-m) * (m - r * e) ^ n / n.factorial) e := by
  have hlinear : HasDerivAt (fun e => m - r * e) (-r) e := by
    simpa using ((hasDerivAt_id' e).const_mul r).const_sub m
  have h := (((hlinear.fun_pow (n + 1)).const_mul (Real.exp (-m))).div_const
    ((n + 1).factorial : ℝ)).fun_neg
  refine h.congr_deriv ?_
  rw [Nat.factorial_succ, Nat.add_sub_cancel]
  push_cast
  field_simp

/-- One variate falls in a piece and `n` in the rest, or all of them fall beyond it. -/
lemma lintegral_poissonMass_succ (hr : 0 < r) (hl : 0 ≤ l) (hm : r * l ≤ m) (n : ℕ) :
    ∫⁻ e, (if e < l then ENNReal.ofReal (poissonMass n (m - r * e))
        else ENNReal.ofReal (poissonMass (n + 1) (m - r * l))) ∂expMeasure r
      = ENNReal.ofReal (poissonMass (n + 1) m) := by
  have hmeas : Measurable fun e => ENNReal.ofReal (poissonMass n (m - r * e)) :=
    ((measurable_poissonMass n).comp (by fun_prop)).ennreal_ofReal
  rw [lintegral_expMeasure_ite_const hr hl hmeas]
  have hrest (e : ℝ) (he : e ≤ l) : 0 ≤ m - r * e := by nlinarith
  set F : ℝ → ℝ := fun e => -(Real.exp (-m) * (m - r * e) ^ (n + 1) / (n + 1).factorial) with hF
  have hbelow : ∫⁻ e in Ico 0 l, ENNReal.ofReal (r * Real.exp (-(r * e)))
        * ENNReal.ofReal (poissonMass n (m - r * e))
      = ENNReal.ofReal (F l - F 0) := by
    rw [← lintegral_deriv hl (fun e _ => hasDerivAt_pow_rest r m e n) (by fun_prop) fun e he => ?_]
    · refine setLIntegral_congr_fun measurableSet_Ico fun e _ => ?_
      rw [← ENNReal.ofReal_mul (mul_nonneg hr.le (Real.exp_pos _).le), poissonMass]
      congr 1
      rw [← exp_mul_exp_sub (r * e) m]
      ring
    · have := hrest e he.2
      positivity
  have hbeyond : ENNReal.ofReal (Real.exp (-(r * l)))
        * ENNReal.ofReal (poissonMass (n + 1) (m - r * l)) = ENNReal.ofReal (-F l) := by
    rw [← ENNReal.ofReal_mul (Real.exp_pos _).le, hF, poissonMass, neg_neg]
    congr 1
    rw [← exp_mul_exp_sub (r * l) m]
    ring
  have hl' := hrest l le_rfl
  have hFl : 0 ≤ -F l := by
    rw [hF, neg_neg]
    positivity
  have hF0 : -F 0 = poissonMass (n + 1) m := by simp [hF, poissonMass]
  have hmono : 0 ≤ F l - F 0 := by
    rw [hF]
    have hpow : (m - r * l) ^ (n + 1) ≤ m ^ (n + 1) := by gcongr; nlinarith
    have hle : Real.exp (-m) * (m - r * l) ^ (n + 1) / (n + 1).factorial
        ≤ Real.exp (-m) * m ^ (n + 1) / (n + 1).factorial := by gcongr
    simp only [mul_zero, sub_zero]
    linarith
  rw [hbelow, hbeyond, ← ENNReal.ofReal_add hmono hFl, ← hF0]
  congr 1
  ring

end Masses

/-! ### Masses of windows -/

section Windows

variable {Λ : ℝ → ℝ} {r b x y z : ℝ} {ws ws' : List (ℝ × ℕ)} {ps : List (ℝ × ℝ)}

/-- The probability of the counts of windows, for points of the mean measure `Λ` between `x` and
`z`, none of them after the last window. -/
noncomputable def masses (Λ : ℝ → ℝ) (z : ℝ) : ℝ → List (ℝ × ℕ) → ℝ≥0∞
  | x, [] => ENNReal.ofReal (poissonMass 0 (Λ z - Λ x))
  | x, (t, n) :: ws =>
    ENNReal.ofReal (poissonMass n (Λ (max x t) - Λ x)) * masses Λ z (max x t) ws

lemma masses_of_le (Λ : ℝ → ℝ) (z : ℝ) {x t : ℝ} (h : x ≤ t) (n : ℕ) (ws : List (ℝ × ℕ)) :
    masses Λ z x ((t, n) :: ws)
      = ENNReal.ofReal (poissonMass n (Λ t - Λ x)) * masses Λ z t ws := by
  rw [masses, max_eq_right h]

lemma masses_of_ge (Λ : ℝ → ℝ) (z : ℝ) {x t : ℝ} (h : t ≤ x) (n : ℕ) (ws : List (ℝ × ℕ)) :
    masses Λ z x ((t, n) :: ws) = if n = 0 then masses Λ z x ws else 0 := by
  rw [masses, max_eq_left h, sub_self]
  split_ifs with hn
  · simp [poissonMass, hn]
  · simp [poissonMass, hn]

/-- At the end of the row no point is left to come. -/
lemma masses_end (Λ : ℝ → ℝ) (hws : ∀ w ∈ ws, w.1 ≤ z) :
    masses Λ z z ws = if total ws = 0 then 1 else 0 := by
  induction ws with
  | nil => simp [masses, poissonMass, total]
  | cons w ws ih =>
    obtain ⟨t, n⟩ := w
    rw [masses_of_ge Λ z (hws _ List.mem_cons_self),
      ih fun w hw => hws w (List.mem_cons_of_mem _ hw)]
    cases n with
    | zero =>
      have htotal : total ((t, 0) :: ws) = total ws := by simp [total]
      rw [if_pos rfl, htotal]
    | succ n => rw [if_neg n.succ_ne_zero, if_neg (by simp [total])]

/-- The probability of the counts once a point landed. -/
noncomputable def landed (Λ : ℝ → ℝ) (z y : ℝ) (ws : List (ℝ × ℕ)) : ℝ≥0∞ :=
  match land y ws with
  | none => 0
  | some ws' => masses Λ z y ws'

lemma landed_nil (Λ : ℝ → ℝ) (z y : ℝ) : landed Λ z y [] = 0 := rfl

lemma landed_zero (Λ : ℝ → ℝ) (z y t : ℝ) (ws : List (ℝ × ℕ)) :
    landed Λ z y ((t, 0) :: ws) = if y < t then 0 else landed Λ z y ws := by
  unfold landed
  rw [land_zero]
  split_ifs <;> rfl

lemma landed_succ (Λ : ℝ → ℝ) (z y t : ℝ) (n : ℕ) (ws : List (ℝ × ℕ)) :
    landed Λ z y ((t, n + 1) :: ws) = if y < t then masses Λ z y ((t, n) :: ws) else 0 := by
  unfold landed
  rw [land_succ]
  split_ifs <;> rfl

lemma measurable_masses (hΛ : Measurable Λ) (z : ℝ) (ws : List (ℝ × ℕ)) :
    Measurable fun x => masses Λ z x ws := by
  induction ws with
  | nil => exact ((measurable_poissonMass 0).comp (measurable_const.sub hΛ)).ennreal_ofReal
  | cons w ws ih =>
    obtain ⟨t, n⟩ := w
    have hmax : Measurable fun x => max x t := measurable_id.max measurable_const
    exact ((measurable_poissonMass n).comp ((hΛ.comp hmax).sub hΛ)).ennreal_ofReal.mul
      (ih.comp hmax)

lemma measurable_landed (hΛ : Measurable Λ) (z : ℝ) (ws : List (ℝ × ℕ)) :
    Measurable fun y => landed Λ z y ws := by
  induction ws with
  | nil => exact measurable_const
  | cons w ws ih =>
    obtain ⟨t, n⟩ := w
    cases n with
    | zero =>
      simp only [landed_zero]
      exact measurable_const.ite measurableSet_Iio ih
    | succ n =>
      simp only [landed_succ]
      exact (measurable_masses hΛ z _).ite measurableSet_Iio measurable_const

/-- A function rises by a rate on an interval. -/
def Rate (Λ : ℝ → ℝ) (r x b : ℝ) : Prop := ∀ y, x ≤ y → y ≤ b → Λ y = Λ x + r * (y - x)

lemma Rate.mono (h : Rate Λ r x b) (hxy : x ≤ y) (hyb : y ≤ b) : Rate Λ r y b := by
  intro u hyu hub
  rw [h u (hxy.trans hyu) hub, h y hxy hyb]
  ring

/-- The pieces of a row, each with its rate and its end: they follow a function. -/
inductive IsRow (Λ : ℝ → ℝ) : ℝ → List (ℝ × ℝ) → ℝ → Prop
  | nil (x : ℝ) : IsRow Λ x [] x
  | cons {x r b z : ℝ} {ps : List (ℝ × ℝ)} : 0 < r → x ≤ b → Rate Λ r x b → IsRow Λ b ps z →
      IsRow Λ x ((r, b) :: ps) z

lemma IsRow.le (h : IsRow Λ x ps z) : x ≤ z := by
  induction h with
  | nil => exact le_rfl
  | cons _ hxb _ _ ih => exact hxb.trans ih

lemma IsRow.rate_pos (h : IsRow Λ x ps z) : ∀ p ∈ ps, 0 < p.1 := by
  induction h with
  | nil => simp
  | cons hr _ _ _ ih => exact List.forall_mem_cons.mpr ⟨hr, ih⟩

lemma IsRow.mono (h : IsRow Λ x ps z) {u v : ℝ} (hxu : x ≤ u) (huv : u ≤ v) (hvz : v ≤ z) :
    Λ u ≤ Λ v := by
  induction h generalizing u with
  | nil => rw [le_antisymm (hvz.trans hxu) huv]
  | @cons x r b z ps hr hxb hrate _ ih =>
    have hpiece {u v : ℝ} (hxu : x ≤ u) (huv : u ≤ v) (hvb : v ≤ b) : Λ u ≤ Λ v := by
      rw [hrate u hxu (huv.trans hvb), hrate v (hxu.trans huv) hvb]
      nlinarith
    rcases le_total v b with hvb | hbv
    · exact hpiece hxu huv hvb
    · rcases le_total u b with hub | hbu
      · exact (hpiece hxu hub le_rfl).trans (ih le_rfl hbv hvz)
      · exact ih hbu huv hvz

/-- The probability of the counts after a variate from `x` in a piece that ends at `b`. -/
noncomputable def placed (Λ : ℝ → ℝ) (z b x : ℝ) (ws : List (ℝ × ℕ)) (e : ℝ) : ℝ≥0∞ :=
  if x + e < b then landed Λ z (x + e) ws else masses Λ z b ws

lemma measurable_placed (hΛ : Measurable Λ) (z b x : ℝ) (ws : List (ℝ × ℕ)) :
    Measurable (placed Λ z b x ws) := by
  have hpoint : Measurable fun e => x + e := measurable_const.add measurable_id
  exact ((measurable_landed hΛ z ws).comp hpoint).ite
    (measurableSet_lt hpoint measurable_const) measurable_const

/-- Nothing lands in a window that is over. -/
lemma lintegral_placed_over (r : ℝ) {t : ℝ} (htx : t ≤ x) (hxb : x ≤ b) (n : ℕ) :
    ∫⁻ e, placed Λ z b x ((t, n) :: ws) e ∂expMeasure r
      = if n = 0 then ∫⁻ e, placed Λ z b x ws e ∂expMeasure r else 0 := by
  have hpoint (e : ℝ) (he : 0 ≤ e) : ¬ x + e < t := by linarith
  split_ifs with hn
  · refine lintegral_expMeasure_congr r fun e he => ?_
    rw [placed, placed, hn, landed_zero, if_neg (hpoint e he), masses_of_ge Λ z (htx.trans hxb),
      if_pos rfl]
  · obtain ⟨n, rfl⟩ := Nat.exists_eq_succ_of_ne_zero hn
    rw [← lintegral_zero (μ := expMeasure r)]
    refine lintegral_expMeasure_congr r fun e he => ?_
    rw [placed, landed_succ, if_neg (hpoint e he), masses_of_ge Λ z (htx.trans hxb), if_neg hn,
      ite_self]

/-- A window that ends beyond the piece. -/
lemma lintegral_placed_beyond (hr : 0 < r) (hxb : x ≤ b) (hrate : Rate Λ r x b) {t : ℝ}
    (hbt : b ≤ t) (hmono : Λ b ≤ Λ t) (n : ℕ) :
    ∫⁻ e, placed Λ z b x ((t, n) :: ws) e ∂expMeasure r = masses Λ z x ((t, n) :: ws) := by
  have hl : 0 ≤ b - x := sub_nonneg.mpr hxb
  have hend : Λ b = Λ x + r * (b - x) := hrate b hxb le_rfl
  have hmass : Λ t - Λ b = Λ t - Λ x - r * (b - x) := by rw [hend]; ring
  rw [masses_of_le Λ z (hxb.trans hbt)]
  cases n with
  | zero =>
    rw [← lintegral_poissonMass_zero hr hl,
      ← lintegral_mul_const _ (measurable_const.ite measurableSet_Iio measurable_const)]
    refine lintegral_congr fun e => ?_
    rw [placed, landed_zero, masses_of_le Λ z hbt, hmass]
    simp only [← lt_sub_iff_add_lt']
    split_ifs with hb ht
    · rw [zero_mul]
    · exact absurd (hb.trans_le (sub_le_sub_right hbt x)) ht
    · rfl
  | succ n =>
    have hmeas : Measurable fun e => ENNReal.ofReal (poissonMass n (Λ t - Λ x - r * e)) :=
      ((measurable_poissonMass n).comp (by fun_prop)).ennreal_ofReal
    rw [← lintegral_poissonMass_succ hr hl (by linarith) n,
      ← lintegral_mul_const _ (hmeas.ite measurableSet_Iio measurable_const)]
    refine lintegral_expMeasure_congr r fun e he => ?_
    rw [placed, landed_succ, masses_of_le Λ z hbt, hmass]
    simp only [← lt_sub_iff_add_lt']
    split_ifs with hb ht
    · rw [masses_of_le Λ z (lt_sub_iff_add_lt'.mp ht).le, hrate (x + e) (by linarith) (by linarith)]
      ring_nf
    · exact absurd (hb.trans_le (sub_le_sub_right hbt x)) ht
    · rfl

/-- A window that ends in the piece: what is left of a variate that goes beyond it has the law of
the variate. -/
lemma lintegral_placed_within (hΛ : Measurable Λ) (hr : 0 < r) (hrate : Rate Λ r x b) {t : ℝ}
    (hxt : x ≤ t) (htb : t ≤ b) (n : ℕ)
    (hrest : ∫⁻ e, placed Λ z b t ws e ∂expMeasure r = masses Λ z t ws) :
    ∫⁻ e, placed Λ z b x ((t, n) :: ws) e ∂expMeasure r = masses Λ z x ((t, n) :: ws) := by
  have hl : 0 ≤ t - x := sub_nonneg.mpr hxt
  have hend : Λ t - Λ x = r * (t - x) := by rw [hrate t hxt htb]; ring
  rw [masses_of_le Λ z hxt]
  cases n with
  | zero =>
    have hmass : poissonMass 0 (Λ t - Λ x) = Real.exp (-(r * (t - x))) := by
      simp [poissonMass, hend]
    have hsplit := lintegral_expMeasure_ite r hl measurable_zero (measurable_placed hΛ z b t ws)
    simp only [Pi.zero_apply, mul_zero, lintegral_zero, zero_add] at hsplit
    rw [hmass, ← hrest, ← hsplit]
    refine lintegral_congr fun e => ?_
    have hpoint : t + (e - (t - x)) = x + e := by ring
    rw [placed, placed, hpoint, landed_zero, masses_of_ge Λ z htb, if_pos rfl]
    simp only [← lt_sub_iff_add_lt']
    split_ifs with hb ht ht
    · rfl
    · rfl
    · exact absurd (ht.trans_le (sub_le_sub_right htb x)) hb
    · rfl
  | succ n =>
    have hmeas : Measurable fun e => ENNReal.ofReal (poissonMass n (Λ t - Λ x - r * e)) :=
      ((measurable_poissonMass n).comp (by fun_prop)).ennreal_ofReal
    rw [← lintegral_poissonMass_succ hr hl hend.ge n,
      ← lintegral_mul_const _ (hmeas.ite measurableSet_Iio measurable_const)]
    refine lintegral_expMeasure_congr r fun e he => ?_
    have hzero : poissonMass (n + 1) (Λ t - Λ x - r * (t - x)) = 0 := by simp [poissonMass, hend]
    rw [placed, landed_succ, masses_of_ge Λ z htb, if_neg n.succ_ne_zero, hzero]
    simp only [← lt_sub_iff_add_lt']
    split_ifs with hb ht ht
    · rw [masses_of_le Λ z (lt_sub_iff_add_lt'.mp ht).le, hrate (x + e) (by linarith) (by linarith)]
      ring_nf
    · simp
    · exact absurd (ht.trans_le (sub_le_sub_right htb x)) hb
    · simp

/-- **A variate of a piece** lands in one of the windows, or beyond the piece. -/
lemma lintegral_placed (hΛ : Measurable Λ) (hr : 0 < r) (hxb : x ≤ b) (hrate : Rate Λ r x b)
    (hmono : ∀ t, b ≤ t → t ≤ z → Λ b ≤ Λ t) (hws : ∀ w ∈ ws, w.1 ≤ z) :
    ∫⁻ e, placed Λ z b x ws e ∂expMeasure r = masses Λ z x ws := by
  induction ws generalizing x with
  | nil =>
    have hmass : Λ z - Λ b = Λ z - Λ x - r * (b - x) := by rw [hrate b hxb le_rfl]; ring
    rw [masses, ← lintegral_poissonMass_zero hr (sub_nonneg.mpr hxb)]
    refine lintegral_congr fun e => ?_
    rw [placed, landed_nil, masses, hmass]
    simp only [← lt_sub_iff_add_lt']
  | cons w ws ih =>
    obtain ⟨t, n⟩ := w
    have hws' : ∀ w ∈ ws, w.1 ≤ z := fun w hw => hws w (List.mem_cons_of_mem _ hw)
    rcases le_or_gt t x with htx | hxt
    · rw [lintegral_placed_over r htx hxb, masses_of_ge Λ z htx, ih hxb hrate hws']
    · rcases le_or_gt b t with hbt | htb
      · exact lintegral_placed_beyond hr hxb hrate hbt
          (hmono t hbt (hws _ List.mem_cons_self)) n
      · exact lintegral_placed_within hΛ hr hrate hxt.le htb.le n
          (ih htb.le (hrate.mono hxt.le htb.le) hws')

end Windows

/-! ### Rows of pieces -/

section Rows

variable {S : Type} {next : ℝ → S → ℝ × S} {Λ : ℝ → ℝ} {r b x z : ℝ} {ps : List (ℝ × ℝ)}
  {ws : List (ℝ × ℕ)} {ys : List ℝ} {g : S}

/-- Variates are laid one after the other along a row of pieces, each piece with its rate and its
end. One that goes beyond its piece is given up for one at the start of the next piece. -/
inductive Lays (next : ℝ → S → ℝ × S) : List (ℝ × ℝ) → ℝ → S → List ℝ → Prop
  | done {x : ℝ} {g : S} : Lays next [] x g []
  | inside {r b : ℝ} {ps : List (ℝ × ℝ)} {x : ℝ} {g : S} {ys : List ℝ} : x + (next r g).1 < b →
      Lays next ((r, b) :: ps) (x + (next r g).1) (next r g).2 ys →
      Lays next ((r, b) :: ps) x g ((x + (next r g).1) :: ys)
  | beyond {r b : ℝ} {ps : List (ℝ × ℝ)} {x : ℝ} {g : S} {ys : List ℝ} : b ≤ x + (next r g).1 →
      Lays next ps b (next r g).2 ys → Lays next ((r, b) :: ps) x g ys

lemma lays_nil_iff : Lays next [] x g ys ↔ ys = [] := by
  refine ⟨fun h => by cases h; rfl, ?_⟩
  rintro rfl
  exact .done

lemma lays_cons_iff : Lays next ((r, b) :: ps) x g ys ↔
    (x + (next r g).1 < b ∧ ∃ ys', ys = (x + (next r g).1) :: ys' ∧
      Lays next ((r, b) :: ps) (x + (next r g).1) (next r g).2 ys') ∨
    (b ≤ x + (next r g).1 ∧ Lays next ps b (next r g).2 ys) := by
  refine ⟨fun h => ?_, ?_⟩
  · cases h with
    | inside hb h => exact .inl ⟨hb, _, rfl, h⟩
    | beyond hb h => exact .inr ⟨hb, h⟩
  · rintro (⟨hb, ys', rfl, h⟩ | ⟨hb, h⟩)
    · exact .inside hb h
    · exact .beyond hb h

/-- The points laid along a row have the counts of windows. -/
def Fits (next : ℝ → S → ℝ × S) (ps : List (ℝ × ℝ)) (ws : List (ℝ × ℕ)) (x : ℝ) (g : S) : Prop :=
  ∃ ys, Lays next ps x g ys ∧ Counts ws ys

lemma fits_nil_iff : Fits next [] ws x g ↔ total ws = 0 := by
  simp [Fits, lays_nil_iff, Counts]

/-- What is left of a piece and of the row after a variate went to the point `y`. -/
def Carried (next : ℝ → S → ℝ × S) (r b : ℝ) (ps : List (ℝ × ℝ)) (ws : List (ℝ × ℕ)) (y : ℝ)
    (g : S) : Prop :=
  (y < b ∧ ∃ ws', land y ws = some ws' ∧ Fits next ((r, b) :: ps) ws' y g) ∨
    (b ≤ y ∧ Fits next ps ws b g)

lemma fits_cons_iff : Fits next ((r, b) :: ps) ws x g ↔
    Carried next r b ps ws (x + (next r g).1) (next r g).2 := by
  refine ⟨?_, ?_⟩
  · rintro ⟨ys, hlays, hcounts⟩
    rcases lays_cons_iff.mp hlays with ⟨hb, ys', rfl, h⟩ | ⟨hb, h⟩
    · obtain ⟨ws', hland, hrest⟩ := hcounts
      exact .inl ⟨hb, ws', hland, ys', h, hrest⟩
    · exact .inr ⟨hb, ys, h, hcounts⟩
  · rintro (⟨hb, ws', hland, ys, h, hcounts⟩ | ⟨hb, ys, h, hcounts⟩)
    · exact ⟨_, .inside hb h, ws', hland, hcounts⟩
    · exact ⟨ys, .beyond hb h, hcounts⟩

variable [MeasurableSpace S]

lemma measurableSet_carried (ws : List (ℝ × ℕ))
    (hinside : ∀ ws', total ws = total ws' + 1 →
      MeasurableSet {p : ℝ × S | Fits next ((r, b) :: ps) ws' p.1 p.2})
    (hbeyond : MeasurableSet {p : ℝ × S | Fits next ps ws p.1 p.2}) :
    MeasurableSet {p : ℝ × S | Carried next r b ps ws p.1 p.2} :=
  ((measurableSet_lt measurable_fst measurable_const).inter (measurableSet_land ws hinside)).union
    ((measurableSet_le measurable_const measurable_fst).inter
      ((measurable_const.prodMk measurable_snd) hbeyond))

lemma measurableSet_fits (hnext : ∀ p ∈ ps, Measurable (next p.1)) (ws : List (ℝ × ℕ)) :
    MeasurableSet {p : ℝ × S | Fits next ps ws p.1 p.2} := by
  induction ps generalizing ws with
  | nil => simp only [fits_nil_iff, MeasurableSet.const]
  | cons p ps ih =>
    obtain ⟨r, b⟩ := p
    have hdraw : Measurable fun p : ℝ × S => next r p.2 :=
      (hnext _ List.mem_cons_self).comp measurable_snd
    have hbeyond := ih fun p hp => hnext p (List.mem_cons_of_mem _ hp)
    induction hn : total ws using Nat.strong_induction_on generalizing ws with
    | _ n ihn =>
      simp only [fits_cons_iff]
      exact ((measurable_fst.add hdraw.fst).prodMk hdraw.snd) (measurableSet_carried ws
        (fun ws' h => ihn (total ws') (by omega) ws' rfl) (hbeyond ws))

/-- **The law of the numbers of points in windows**: each of them has the Poisson law of the mean
measure of its window, and none depends on the others. -/
theorem measure_fits {P : Measure S} [IsProbabilityMeasure P]
    (hsource : ∀ r, 0 < r → Source (expMeasure r) P (next r)) (hΛ : Measurable Λ)
    (hps : IsRow Λ x ps z) (hws : ∀ w ∈ ws, w.1 ≤ z) :
    P {g | Fits next ps ws x g} = masses Λ z x ws := by
  induction ps generalizing ws x with
  | nil =>
    cases hps
    rw [masses_end Λ hws]
    simp only [fits_nil_iff]
    split_ifs with htotal
    · simp [htotal]
    · simp [htotal]
  | cons p ps ih =>
    obtain ⟨r, b⟩ := p
    have hmeas : ∀ p ∈ (r, b) :: ps, Measurable (next p.1) :=
      fun p hp => (hsource p.1 (hps.rate_pos p hp)).measurable
    cases hps with
    | cons hr hxb hrate hrest =>
    induction hn : total ws using Nat.strong_induction_on generalizing ws x with
    | _ n ihn =>
      have hset := ((measurable_const (a := x)).add measurable_fst).prodMk measurable_snd
        (measurableSet_carried ws (fun ws' _ => measurableSet_fits hmeas ws')
          (measurableSet_fits (fun p hp => hmeas p (List.mem_cons_of_mem _ hp)) ws))
      simp only [fits_cons_iff]
      rw [← lintegral_placed hΛ hr hxb hrate (fun t => hrest.mono le_rfl) hws]
      refine ((hsource r hr).measure hset).trans (lintegral_expMeasure_congr r fun e he => ?_)
      change P {g | Carried next r b ps ws (x + e) g} = _
      unfold placed Carried
      split_ifs with hb
      · cases hland : land (x + e) ws with
        | none => simp [landed, hland, not_le.mpr hb]
        | some ws' =>
          obtain ⟨htotal, hends⟩ := land_spec hland
          have hws' : ∀ w ∈ ws', w.1 ≤ z := fun w hw => by
            obtain ⟨w', hw', heq⟩ := hends w hw
            exact heq ▸ hws w' hw'
          have h := ihn (total ws') (by omega) hws' hb.le
            (hrate.mono (le_add_of_nonneg_right he) hb.le) rfl
          simpa [landed, hland, hb, not_le.mpr hb] using h
      · have h := ih hrest hws
        simpa [hb, not_lt.mp hb] using h

end Rows

/-! ### Counts -/

section Counts

variable {S : Type} {next : ℝ → S → ℝ × S} {Λ : ℝ → ℝ} {x z : ℝ} {ps : List (ℝ × ℝ)}
  {ws : List (ℝ × ℕ)} {ys : List ℝ} {g : S} {t : ℕ → ℝ} {n : ℕ → ℕ}

lemma masses_windows (Λ : ℝ → ℝ) (n : ℕ → ℕ) (m : ℕ) : ∀ {i : ℕ},
    (∀ j, i ≤ j → j < i + m → t j ≤ t (j + 1)) → t (i + m) = z →
    masses Λ z (t i) (windows t n i m)
      = ∏ j ∈ Finset.range m,
        ENNReal.ofReal (poissonMass (n (i + j)) (Λ (t (i + j + 1)) - Λ (t (i + j)))) := by
  induction m with
  | zero =>
    intro i _ hz
    rw [add_zero] at hz
    simp [windows, masses, hz, poissonMass]
  | succ m ih =>
    intro i ht hz
    have hrest := ih (i := i + 1) (fun j hj hj' => ht j (by omega) (by omega))
      (by rw [← hz]; congr 1; omega)
    rw [windows, masses_of_le Λ z (ht i le_rfl (by omega)), hrest, Finset.prod_range_succ',
      mul_comm]
    simp only [add_zero, Nat.add_right_comm i 1, Nat.add_assoc i _ 1]

/-- The points rise, and stay in the row. -/
lemma Lays.sorted (hvariate : ∀ r g, 0 < r → 0 ≤ (next r g).1) (h : Lays next ps x g ys)
    (hps : IsRow Λ x ps z) : ys.Pairwise (· ≤ ·) ∧ ∀ y ∈ ys, x ≤ y ∧ y < z := by
  induction h with
  | done => simp
  | @inside r b ps x g ys hb _ ih =>
    cases hps with
    | cons hr hxb hrate hrest =>
    have hle : x ≤ x + (next r g).1 := le_add_of_nonneg_right (hvariate r g hr)
    obtain ⟨hsorted, hys⟩ := ih (.cons hr hb.le (hrate.mono hle hb.le) hrest)
    refine ⟨List.pairwise_cons.mpr ⟨fun y hy => (hys y hy).1, hsorted⟩,
      List.forall_mem_cons.mpr ⟨⟨hle, hb.trans_le hrest.le⟩, fun y hy => ?_⟩⟩
    exact ⟨hle.trans (hys y hy).1, (hys y hy).2⟩
  | beyond _ _ ih =>
    cases hps with
    | cons hr hxb hrate hrest =>
    obtain ⟨hsorted, hys⟩ := ih hrest
    exact ⟨hsorted, fun y hy => ⟨hxb.trans (hys y hy).1, (hys y hy).2⟩⟩

/-- The points are determined. -/
lemma Lays.unique {ys' : List ℝ} (h : Lays next ps x g ys) (h' : Lays next ps x g ys') :
    ys = ys' := by
  induction h generalizing ys' with
  | done => exact (lays_nil_iff.mp h').symm
  | inside hb _ ih =>
    rcases lays_cons_iff.mp h' with ⟨_, ys'', rfl, h⟩ | ⟨hb', _⟩
    · rw [ih h]
    · exact absurd hb (not_lt.mpr hb')
  | beyond hb _ ih =>
    rcases lays_cons_iff.mp h' with ⟨hb', _⟩ | ⟨_, h⟩
    · exact absurd hb' (not_lt.mpr hb)
    · exact ih h

variable [MeasurableSpace S] {P : Measure S} [IsProbabilityMeasure P]

lemma ofReal_poissonMass (n : ℕ) {m : ℝ} (hm : 0 ≤ m) :
    ENNReal.ofReal (poissonMass n m) = poissonMeasure m.toNNReal {n} := by
  rw [poissonMeasure_singleton, Real.coe_toNNReal m hm, poissonMass]

/-- **The points of a row** are those of a Poisson process: their numbers between bounds one after
the other are independent, each with the Poisson law. -/
theorem measure_counts (hvariate : ∀ r g, 0 < r → 0 ≤ (next r g).1)
    (hsource : ∀ r, 0 < r → Source (expMeasure r) P (next r)) (hΛ : Measurable Λ)
    (hps : IsRow Λ x ps z) {m : ℕ} (ht : ∀ j < m, t j ≤ t (j + 1)) (h0 : t 0 = x) (hm : t m = z)
    (n : ℕ → ℕ) :
    P {g | ∃ ys, Lays next ps x g ys ∧
        ∀ j < m, ys.countP (fun y => t j ≤ y ∧ y < t (j + 1)) = n j}
      = ∏ j ∈ Finset.range m, poissonMeasure (Λ (t (j + 1)) - Λ (t j)).toNNReal {n j} := by
  subst h0 hm
  have hcounts : {g | ∃ ys, Lays next ps (t 0) g ys ∧
      ∀ j < m, ys.countP (fun y => t j ≤ y ∧ y < t (j + 1)) = n j}
        = {g | Fits next ps (windows t n 0 m) (t 0) g} := by
    ext g
    refine exists_congr fun ys => and_congr_right fun hlays => ?_
    obtain ⟨hsorted, hys⟩ := hlays.sorted hvariate hps
    rw [counts_windows n m (fun j _ hj => ht j (by omega)) hsorted (by simpa using hys)]
    simp
  have hfactor : ∀ j ∈ Finset.range m, ENNReal.ofReal
      (poissonMass (n (0 + j)) (Λ (t (0 + j + 1)) - Λ (t (0 + j))))
        = poissonMeasure (Λ (t (j + 1)) - Λ (t j)).toNNReal {n j} := by
    intro j hj
    have hj := Finset.mem_range.mp hj
    rw [zero_add]
    exact ofReal_poissonMass _ (sub_nonneg.mpr
      (hps.mono (bounds_mono ht (Nat.zero_le j) hj.le) (ht j hj) (bounds_mono ht hj le_rfl)))
  rw [hcounts, measure_fits hsource hΛ hps (windows_le ht),
    masses_windows Λ n m (fun j _ hj => ht j (by omega)) (by rw [zero_add]),
    Finset.prod_congr rfl hfactor]

/-- **Almost surely** the row comes to its end. -/
theorem ae_lays (hsource : ∀ r, 0 < r → Source (expMeasure r) P (next r)) (hΛ : Measurable Λ)
    (hps : IsRow Λ x ps z) : ∀ᵐ g ∂P, ∃ ys, Lays next ps x g ys := by
  set A : ℕ → Set S := fun n => {g | Fits next ps [(z, n)] x g} with hA
  have hmeas (n : ℕ) : MeasurableSet (A n) :=
    (measurable_const.prodMk measurable_id) (measurableSet_fits
      (fun p hp => (hsource p.1 (hps.rate_pos p hp)).measurable) [(z, n)])
  have hlaw (n : ℕ) : P (A n) = poissonMeasure (Λ z - Λ x).toNNReal {n} := by
    have hws : ∀ w ∈ [(z, n)], w.1 ≤ z := by simp
    have h := measure_fits hsource hΛ hps hws
    rw [masses_of_le Λ z hps.le, masses_end Λ (by simp), if_pos (show total [] = 0 from rfl),
      mul_one, ofReal_poissonMass n (sub_nonneg.mpr (hps.mono le_rfl hps.le le_rfl))] at h
    exact h
  have hdisjoint : Pairwise (Function.onFun Disjoint A) := by
    refine fun n n' hne => disjoint_left.mpr ?_
    rintro g ⟨ys, hlays, hcounts⟩ ⟨ys', hlays', hcounts'⟩
    obtain rfl := hlays.unique hlays'
    exact hne ((counts_cons.mp hcounts).1.symm.trans (counts_cons.mp hcounts').1)
  have hone : P (⋃ n, A n) = 1 := by
    rw [measure_iUnion hdisjoint hmeas]
    simp only [hlaw]
    rw [← measure_iUnion (fun n n' hne => disjoint_singleton.mpr hne) fun n => .singleton n,
      iUnion_of_singleton, measure_univ]
  refine Filter.mem_of_superset ((mem_ae_iff_prob_eq_one (.iUnion hmeas)).mpr hone) ?_
  rintro g hg
  obtain ⟨n, ys, hlays, -⟩ := mem_iUnion.mp hg
  exact ⟨ys, hlays⟩

end Counts

end Sampling
