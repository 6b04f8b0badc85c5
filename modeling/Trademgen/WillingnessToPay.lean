import Trademgen.DemandStreamSpec

/-!
The willingness-to-pay of a request. The FRAT5 pattern gives, for each number of days before
departure, the multiple of the minimum that half of the travellers accept.
-/

set_option linter.unusedSectionVars false

namespace Trademgen

open OrderedMap

/-! ### Fares that fall with the share of travellers -/

section Fares

/-- The fare that a share `u` of the travellers accepts, when half of them accept `f` times the
minimum `m`. -/
noncomputable def fareOf (m f u : ℝ) : ℝ := m * (1 + (f - 1) * Real.logb (1 / 2) u)

variable {m f f' u u' : ℝ}

lemma logb_half_nonneg (h0 : 0 < u) (h1 : u ≤ 1) : 0 ≤ Real.logb (1 / 2) u :=
  Real.logb_nonneg_of_base_lt_one (by norm_num) (by norm_num) h0 h1

lemma le_fareOf (hm : 0 < m) (hf : 1 < f) (h0 : 0 < u) (h1 : u ≤ 1) : m ≤ fareOf m f u := by
  have hL := mul_nonneg (sub_pos.mpr hf).le (logb_half_nonneg h0 h1)
  calc m = m * (1 + 0) := by ring
    _ ≤ fareOf m f u := by
      unfold fareOf
      gcongr

/-- A larger multiple raises every fare. -/
lemma fareOf_mono (hm : 0 < m) (hf : f ≤ f') (h0 : 0 < u) (h1 : u ≤ 1) :
    fareOf m f u ≤ fareOf m f' u := by
  have hL := logb_half_nonneg h0 h1
  unfold fareOf
  gcongr

/-- A larger share accepts a lower fare. -/
lemma fareOf_anti (hm : 0 < m) (hf : 1 < f) (h0 : 0 < u) (hu : u ≤ u') :
    fareOf m f u' ≤ fareOf m f u := by
  have hL : Real.logb (1 / 2) u' ≤ Real.logb (1 / 2) u :=
    (Real.logb_le_logb_of_base_lt_one (by norm_num) (by norm_num) (h0.trans_le hu) h0).mpr hu
  have hf' : 0 ≤ f - 1 := (sub_pos.mpr hf).le
  unfold fareOf
  gcongr

/-- Half of the travellers accept the multiple of the minimum. -/
lemma mul_le_fareOf_iff (hm : 0 < m) (hf : 1 < f) (h0 : 0 < u) :
    f * m ≤ fareOf m f u ↔ u ≤ 1 / 2 := by
  have hf' : 0 < f - 1 := sub_pos.mpr hf
  have hsub : fareOf m f u - f * m = m * ((f - 1) * (Real.logb (1 / 2) u - 1)) := by
    unfold fareOf
    ring
  calc f * m ≤ fareOf m f u ↔ 0 ≤ m * ((f - 1) * (Real.logb (1 / 2) u - 1)) := by
        rw [← hsub, sub_nonneg]
    _ ↔ 0 ≤ Real.logb (1 / 2) u - 1 := by
        rw [mul_nonneg_iff_of_pos_left hm, mul_nonneg_iff_of_pos_left hf']
    _ ↔ 1 ≤ Real.logb (1 / 2) u := sub_nonneg
    _ ↔ u ≤ 1 / 2 := by
        rw [Real.le_logb_iff_rpow_le_of_base_lt_one (by norm_num) (by norm_num) h0, Real.rpow_one]

end Fares

/-! ### The pattern -/

section Pattern

open ContinuousAttributeLite

variable {K : Type} [Field K] [LinearOrder K] [IsStrictOrderedRing K]

/-- The first knot is the least coefficient. -/
lemma init_createFRAT5Pattern_v :
    (init (createFRAT5Pattern : OMap K K)).v 0 = 1.10 := by
  unfold createFRAT5Pattern
  rw [init_v (by norm_num)]
  rfl

lemma init_createFRAT5Pattern_size : 0 < (init (createFRAT5Pattern : OMap K K)).size :=
  List.length_pos_of_ne_nil (OMap.ofPairs_pairs_ne_nil (by simp))

/-- Every coefficient is more than one. -/
lemma exists_frat5 (p : K) :
    ∃ f, (init (createFRAT5Pattern : OMap K K)).getValue p = .ok f ∧ 1 < f := by
  obtain ⟨f, hf, h0, -⟩ := getValue_mem _ init_createFRAT5Pattern_size p
  rw [init_createFRAT5Pattern_v] at h0
  exact ⟨f, hf, h0.trans_lt' (by norm_num)⟩

end Pattern

namespace DemandStream

/-! ### The draw -/

variable {G : Type} [RandomGeneration ℝ G]

lemma wtpAt_eq_ok {d : DemandCharacteristics ℝ} {departure : Date} {t : DateTime} {u w : ℝ} :
    wtpAt d departure t u = .ok w ↔
      ∃ f, d.frat5Pattern.getValue (-((departure - t.date : ℤ) : ℝ)) = .ok f ∧
        w = fareOf d.minWTP f u := by
  have hfare (f : ℝ) : d.minWTP * (1 + (f - 1) * Libm.log u / Libm.log (1 / 2))
      = fareOf d.minWTP f u := by
    unfold fareOf
    rw [mul_div_assoc]
    rfl
  unfold wtpAt
  cases d.frat5Pattern.getValue (-((departure - t.date : ℤ) : ℝ)) with
  | error e => exact ⟨nofun, fun ⟨_, h, _⟩ => nomatch h⟩
  | ok f =>
    refine ⟨fun h => ⟨f, rfl, ?_⟩, ?_⟩
    · cases h
      exact hfare f
    · rintro ⟨_, h, rfl⟩
      cases h
      exact congrArg Except.ok (hfare f)

/-- A willingness-to-pay drawn for a request date, with a variate of the shared generator. -/
def DrawsWTP (s : DemandStream ℝ G) (departure request : Date) (u w : ℝ) : Prop :=
  ∃ (g g' : G) (t : DateTime) (n : ℕ), t.date = request ∧ variate g 0 = u ∧
    generateWTP g departure t n s = .ok (w, g') s

lemma DrawsWTP.eq {s : DemandStream ℝ G} {departure request : Date} {u w f : ℝ}
    (h : s.DrawsWTP departure request u w)
    (hf : s.demandCharacteristics.frat5Pattern.getValue (-((departure - request : ℤ) : ℝ))
      = .ok f) : w = fareOf s.demandCharacteristics.minWTP f u := by
  obtain ⟨g, g', t, n, rfl, rfl, h⟩ := h
  obtain ⟨f', hf', rfl⟩ := wtpAt_eq_ok.mp (generateWTP_eq_ok.mp h).1
  cases hf.symm.trans hf'
  rfl

/-- **The willingness-to-pay follows the FRAT5 rule.** The coefficients are more than one, and do
not fall as the departure comes nearer. No fare is below the minimum; one drawn with the same
variate for a later date, or with a smaller variate for the same date, is not lower; and half of
the variates draw at least the coefficient times the minimum. -/
theorem generateWTP_frat5 (s : DemandStream ℝ G) (departure : Date)
    (hpattern : s.demandCharacteristics.frat5Pattern = .init createFRAT5Pattern)
    (hm : 0 < s.demandCharacteristics.minWTP) :
    let m := s.demandCharacteristics.minWTP
    (∀ g t n, ∃ w, generateWTP g departure t n s = .ok (w, advance g 1) s) ∧
    ∃ f : Date → ℝ,
      (∀ r, s.demandCharacteristics.frat5Pattern.getValue (-((departure - r : ℤ) : ℝ))
        = .ok (f r)) ∧
      (∀ r, 1 < f r) ∧ (∀ r r', r ≤ r' → f r ≤ f r') ∧
      ∀ r u w, 0 < u → u ≤ 1 → s.DrawsWTP departure r u w →
        m ≤ w ∧ (f r * m ≤ w ↔ u ≤ 1 / 2) ∧
        (∀ r' w', r ≤ r' → s.DrawsWTP departure r' u w' → w ≤ w') ∧
        ∀ u' w', u ≤ u' → u' ≤ 1 → s.DrawsWTP departure r u' w' → w' ≤ w := by
  intro m
  choose f hf h1 using fun r : Date => exists_frat5 (-((departure - r : ℤ) : ℝ))
  rw [← hpattern] at hf
  have hmono (r r' : Date) (h : r ≤ r') : f r ≤ f r' := by
    refine ContinuousAttributeLite.getValue_mono _ ?_ ?_ (hf r) (hf r')
    · rw [hpattern]
      exact init_createFRAT5Pattern_size
    · rw [neg_le_neg_iff, Int.cast_le]
      exact sub_le_sub_left h departure
  refine ⟨fun g t n => ?_, f, hf, h1, hmono, fun r u w h0 hu hw => ?_⟩
  · exact ⟨_, generateWTP_eq_ok.mpr ⟨wtpAt_eq_ok.mpr ⟨_, hf t.date, rfl⟩, rfl, rfl⟩⟩
  · obtain rfl := hw.eq (hf r)
    refine ⟨le_fareOf hm (h1 r) h0 hu, mul_le_fareOf_iff hm (h1 r) h0, ?_, ?_⟩
    · rintro r' w' hr hw'
      obtain rfl := hw'.eq (hf r')
      exact fareOf_mono hm (hmono r r' hr) h0 hu
    · rintro u' w' huu' - hw'
      obtain rfl := hw'.eq (hf r)
      exact fareOf_anti hm (h1 r) h0 huu'

/-- The theorem for a request three weeks before departure and a variate of one half. -/
theorem generateWTP_frat5_sample :
    let g : Tape ℝ := .const (1 / 2) 1 0 (by norm_num) Tape.one_pos
    let s : DemandStream ℝ (Tape ℝ) := sampleStream [(0, 1)] 0 1 1 g
    ∃ f w, s.demandCharacteristics.frat5Pattern.getValue (-21) = .ok f ∧ 1 < f ∧
      generateWTP g 2455237 (DateTime.ptime 2455216 0) 7 s = .ok (w, advance g 1) s ∧
      f * 1000 ≤ w := by
  intro g s
  obtain ⟨hw, f, hf, h1, -, hfare⟩ := generateWTP_frat5 s 2455237 rfl
    (show (0 : ℝ) < 1000 by norm_num)
  obtain ⟨w, hw⟩ := hw g (DateTime.ptime 2455216 0) 7
  have hdate : DateTime.date (DateTime.ptime 2455216 0) = 2455216 := by decide
  have hdraws : s.DrawsWTP 2455237 2455216 (1 / 2) w := ⟨g, _, _, _, hdate, rfl, hw⟩
  have hdays : (-((2455237 - 2455216 : ℤ) : ℝ)) = -21 := by norm_num
  refine ⟨f 2455216, w, ?_, h1 _, hw, ?_⟩
  · rw [← hdays]
    exact hf 2455216
  · exact (hfare 2455216 (1 / 2) w (by norm_num) (by norm_num) hdraws).2.1.mpr le_rfl

end DemandStream

end Trademgen
