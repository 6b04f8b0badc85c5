import Trademgen.Attributes

/-!
The lookup of a continuous attribute: the generalised inverse of the piecewise-linear function
through the points of the map, for real values, and its truncation for integer ones.

The table can be entered by a probability or by a value; both scans stop at the same piece.
-/

set_option linter.unusedSectionVars false

namespace Trademgen.ContinuousAttributeLite

open OrderedMap Knots

/-! ### Real values -/

section Real

variable {K : Type} [Field K] [LinearOrder K] [IsStrictOrderedRing K]
variable (a : ContinuousAttributeLite K K)

/-- From the first cumulative probability up to the last, the cumulative function takes the
probability at the value. -/
lemma interp_getValue {p : K} (hp : a.c 0 ≤ p) (hpn : p < a.c (a.size - 1)) :
    ∃ x, a.getValue p = .ok x ∧ interp a.v a.c (a.size - 1) x = p := by
  have h : 0 < a.size := by
    by_contra h0
    have : a.size - 1 = 0 := by omega
    rw [this] at hpn
    exact absurd hp (not_le.mpr hpn)
  obtain ⟨i, hi, hidx⟩ := a.exists_piece hp ⟨a.size - 1, by omega, hpn⟩
  obtain ⟨x, hx, -, -, hF⟩ := a.getValue_inside hi hidx
  exact ⟨x, hx, hF⟩

/-! The scan of the values, from a value that lies on a piece before its end. -/

/-- The end of the piece is the least knot above. -/
lemma isLeast_knot {x : K} {i : ℕ} (hi : i + 1 < a.size) (h0 : a.v i ≤ x)
    (h1 : x < a.v (i + 1)) : IsLeast {k | k ∈ a.valueArray ∧ x < k} (a.v (i + 1)) := by
  have hlen := a.length_valueArray
  refine ⟨⟨?_, h1⟩, ?_⟩
  · unfold v
    rw [List.getD_eq_getElem _ _ (by omega)]
    exact List.getElem_mem _
  · rintro k ⟨hk, hxk⟩
    obtain ⟨j, hj, rfl⟩ := List.getElem_of_mem hk
    have hvj : a.valueArray[j] = a.v j := (List.getD_eq_getElem _ _ hj).symm
    rw [hvj] at hxk ⊢
    rcases Nat.lt_or_ge i j with hij | hji
    · exact a.v_le hij (by omega)
    -- A knot up to the start of the piece is not above.
    · exact absurd ((a.v_le hji (by omega)).trans h0) (not_le.mpr hxk)

/-- The slope of the piece leads from the cumulative function at the value to its end. -/
lemma add_slopeOf_mul {p x : K} {i : ℕ} (hi : i + 1 < a.size) (h0 : a.v i ≤ x)
    (h1 : x ≤ a.v (i + 1)) (hp : interp a.v a.c (a.size - 1) x = p) :
    p + slopeOf a.v a.c i * (a.v (i + 1) - x) = a.c (i + 1) := by
  have hv := a.v_le (Nat.le_succ i) hi
  have hsub := interp_sub (c := a.c) a.increasing_v (i := i) (by omega) h0 h1 hv le_rfl
  rw [interp_knot a.increasing_v (by omega), hp] at hsub
  rw [← hsub]
  ring

/-! The points of the map, by their index. -/

lemma mem_pairs (m : OMap K K) {i : ℕ} (hi : i < (init m).size) :
    ((init m).v i, (init m).c i) ∈ m.pairs := by
  have hi : i < m.pairs.length := hi
  have hpair : m.pairs[i] = ((init m).v i, (init m).c i) := by
    simp [v, c, init, OMap.keys, OMap.values, hi]
  rw [← hpair]
  exact List.getElem_mem _

lemma exists_c (m : OMap K K) {q : K} (hq : q ∈ m.values) :
    ∃ i < (init m).size, (init m).c i = q := by
  obtain ⟨i, hi, rfl⟩ := List.getElem_of_mem hq
  exact ⟨i, hi.trans_eq m.length_values, List.getD_eq_getElem _ _ hi⟩

/-- **The three scans agree.** From the first cumulative probability on, and below another one,
the scans of the values from the value at the probability do not fail: they find the least knot
above and a positive slope, by which the cumulative function reaches the probability stored at
that knot. -/
theorem scans_agree (m : OMap K K) (p : K) (h0 : m.values.getD 0 0 ≤ p)
    (hp : ∃ q ∈ m.values, p < q) :
    ∃ t b d, (init m).getValue p = .ok t ∧ (init m).getUpperBound t = .ok b ∧
      (init m).getDerivativeValue t = .ok d ∧ 0 < d ∧ IsLeast {k | k ∈ m.keys ∧ t < k} b ∧
      (b, p + d * (b - t)) ∈ m.pairs := by
  obtain ⟨q, hq, hpq⟩ := hp
  obtain ⟨j, hj, rfl⟩ := exists_c m hq
  obtain ⟨i, hi, hidx⟩ := (init m).exists_piece h0 ⟨j, hj, hpq⟩
  obtain ⟨t, ht, ht0, ht1, hF⟩ := (init m).getValue_inside hi hidx
  have hv := (init m).v_lt (Nat.lt_succ_self i) hi
  obtain ⟨hc0, hc1⟩ := (init m).c_piece hi hidx
  refine ⟨t, _, _, ht, (init m).getUpperBound_eq hi ht0 ht1,
    (init m).getDerivativeValue_eq hi ht0 ht1, slopeOf_pos hv (hc0.trans_lt hc1),
    (init m).isLeast_knot hi ht0 ht1, ?_⟩
  rw [(init m).add_slopeOf_mul hi ht0 ht1.le hF]
  exact mem_pairs m hi

/-- The theorem at the end of a plateau. -/
theorem scans_agree_sample :
    let m : OMap ℚ ℚ := OMap.ofPairs [(0, 1 / 4), (1, 1 / 2), (2, 1 / 2), (3, 1)]
    ∃ t b d, (init m).getValue (1 / 2) = .ok t ∧ (init m).getUpperBound t = .ok b ∧
      (init m).getDerivativeValue t = .ok d ∧ 0 < d ∧ IsLeast {k | k ∈ m.keys ∧ t < k} b ∧
      (b, 1 / 2 + d * (b - t)) ∈ m.pairs :=
  scans_agree _ _ (by decide +kernel) ⟨1, by decide +kernel, by decide +kernel⟩

end Real

/-! ### Integer values -/

section Integer

variable {K : Type} [Field K] [LinearOrder K] [IsStrictOrderedRing K]

/-- The map with its integer keys taken as reals. -/
def realKeys (m : OMap ℤ K) : OMap K K where
  pairs := m.pairs.map fun e => ((e.1 : K), e.2)
  sorted := by
    rw [List.map_map]
    have h := m.sorted
    rw [List.pairwise_map] at h ⊢
    exact h.imp fun h => Int.cast_lt.mpr h

lemma init_realKeys_cumulativeDistribution (m : OMap ℤ K) :
    (init (realKeys m)).cumulativeDistribution = (init m).cumulativeDistribution := by
  simp [init, realKeys, OMap.values]

lemma init_realKeys_valueArray (m : OMap ℤ K) :
    (init (realKeys m)).valueArray = List.map (Int.cast : ℤ → K) (init m).valueArray := by
  simp [init, realKeys, OMap.keys]

lemma init_realKeys_size (m : OMap ℤ K) : (init (realKeys m)).size = (init m).size := by
  simp [init, realKeys]

lemma vectorAt_map {α β : Type} (f : α → β) (xs : List α) (i : ℕ) :
    vectorAt (xs.map f) i = (vectorAt xs i).map f := by
  unfold vectorAt
  rw [List.getElem?_map]
  cases xs[i]? <;> rfl

variable [FloorRing K]

lemma ofReal_intCast (z : ℤ) : (Numeric.ofReal (z : K) : ℤ) = z := by
  simp [Numeric.ofReal]

/-- The lookup among integers is the lookup among reals, converted. -/
lemma getValue_realKeys (m : OMap ℤ K) (p : K) :
    (init m).getValue p = ((init (realKeys m)).getValue p).map Numeric.ofReal := by
  have hv (i : ℕ) : vectorAt (init (realKeys m)).valueArray i
      = (vectorAt (init m).valueArray i).map Int.cast := by
    rw [init_realKeys_valueArray, vectorAt_map]
  have hback (i : ℕ) : vectorAt (init m).valueArray i
      = (vectorAt (init (realKeys m)).valueArray i).map Numeric.ofReal := by
    rw [hv]
    cases vectorAt (init m).valueArray i with
    | error f => rfl
    | ok z => exact congrArg Except.ok (ofReal_intCast z).symm
  unfold getValue
  rw [init_realKeys_cumulativeDistribution, init_realKeys_size]
  generalize firstAbove p (init m).cumulativeDistribution = idx
  by_cases h0 : idx = 0
  · simp only [h0, if_true, hback]
  by_cases h1 : idx = (init m).size
  · simp only [h1, if_true, hback]
    split <;> rfl
  simp only [h0, h1, if_false, hv]
  cases vectorAt (init m).cumulativeDistribution idx with
  | error f => rfl
  | ok c1 =>
    cases vectorAt (init m).valueArray idx with
    | error f => rfl
    | ok z1 =>
      cases vectorAt (init m).cumulativeDistribution (idx - 1) with
      | error f => rfl
      | ok c0 =>
        cases vectorAt (init m).valueArray (idx - 1) with
        | error f => rfl
        | ok z0 =>
          by_cases hc : c0 = c1
          · simp [bind, Except.bind, Except.map, hc, pure, Except.pure, ofReal_intCast]
          · simp [bind, Except.bind, Except.map, hc, pure, Except.pure, Numeric.toReal]
            rfl

/-- **The lookup as an inverse.** With `F` the piecewise-linear function through the points of
the map, the value at a probability below the first one is the first knot, and at any other the
largest one up to which `F` does not go above the probability; the division is never by zero.
An integer value is the truncation of the real one. -/
theorem getValue_inverse :
    (∀ m : OMap K K, m.pairs ≠ [] →
      let v := fun i => m.keys.getD i 0
      let c := fun i => m.values.getD i 0
      let n := m.pairs.length - 1
      (∀ p, ∃ x, (init m).getValue p = .ok x ∧ v 0 ≤ x ∧ x ≤ v n ∧
        (p < c 0 → x = v 0) ∧
        (c 0 ≤ p → IsGreatest {w | v 0 ≤ w ∧ w ≤ v n ∧
          ∀ y, v 0 ≤ y → y ≤ w → interp v c n y ≤ p} x)) ∧
      (∀ p i, i < n → firstAbove p m.values = i + 1 → c (i + 1) - c i ≠ 0) ∧
      (∀ p q x y, p ≤ q → (init m).getValue p = .ok x → (init m).getValue q = .ok y → x ≤ y) ∧
      (∀ p, c 0 ≤ p → p < c n → ∃ x, (init m).getValue p = .ok x ∧ interp v c n x = p)) ∧
    (∀ m : OMap ℤ K, m.pairs ≠ [] → (∀ k ∈ m.keys, 0 ≤ k) → ∀ p : K,
      ∃ x, (init (realKeys m)).getValue p = .ok x ∧ (init m).getValue p = .ok ⌊x⌋) := by
  refine ⟨fun m hm => ?_, fun m hm h0 p => ?_⟩
  · have h : 0 < (init m).size := List.length_pos_iff.mpr hm
    refine ⟨fun p => ?_, fun p i hi hidx => ?_, fun p q x y => (init m).getValue_mono h,
      fun p => (init m).interp_getValue⟩
    · obtain ⟨x, hx, hx0, hxn⟩ := (init m).getValue_mem h p
      refine ⟨x, hx, hx0, hxn, fun hp => ?_, fun hp => (init m).getValue_isGreatest h hp hx⟩
      have hidx : firstAbove p (init m).cumulativeDistribution = 0 :=
        firstAbove_eq (by rw [(init m).length_cumulativeDistribution]; exact h) hp (by omega)
      rw [(init m).getValue_first h hidx] at hx
      exact (Except.ok.inj hx).symm
    · have hi' : i + 1 < (init m).size := by
        change i + 1 < m.pairs.length
        omega
      have hidx : firstAbove p (init m).cumulativeDistribution = i + 1 := hidx
      obtain ⟨hc0, hc1⟩ := (init m).c_piece hi' hidx
      exact (sub_pos.mpr (hc0.trans_lt hc1)).ne'
  · have hsize : 0 < (init (realKeys m)).size := by
      rw [init_realKeys_size]
      exact List.length_pos_iff.mpr hm
    obtain ⟨x, hx, hx0, -⟩ := (init (realKeys m)).getValue_mem hsize p
    have hnonneg : 0 ≤ (init (realKeys m)).v 0 := by
      unfold v
      rw [init_realKeys_valueArray]
      cases hk : (init m).valueArray with
      | nil => simp
      | cons k l =>
        have := h0 k (by change k ∈ (init m).valueArray; rw [hk]; exact List.mem_cons_self)
        simpa using this
    refine ⟨x, hx, ?_⟩
    rw [getValue_realKeys, hx]
    exact congrArg Except.ok (if_pos (hnonneg.trans hx0))

/-- The theorem on a plateau of a table with four knots: the furthest point is its end. -/
theorem getValue_inverse_sample :
    let m : OMap ℚ ℚ := OMap.ofPairs [(0, 1 / 4), (1, 1 / 2), (2, 1 / 2), (3, 1)]
    (init m).getValue (1 / 2) = .ok 2 ∧
    IsGreatest {w | 0 ≤ w ∧ w ≤ 3 ∧ ∀ y, 0 ≤ y → y ≤ w →
      interp (fun i => m.keys.getD i 0) (fun i => m.values.getD i 0) 3 y ≤ 1 / 2} 2 := by
  intro m
  have hval : (init m).getValue (1 / 2) = .ok 2 := by decide +kernel
  obtain ⟨x, hx, -, -, -, hgreatest⟩ := (getValue_inverse.1 m (by decide +kernel)).1 (1 / 2)
  obtain rfl : x = 2 := Except.ok.inj (hx.symm.trans hval)
  exact ⟨hval, hgreatest (by decide +kernel)⟩

end Integer

end Trademgen.ContinuousAttributeLite
