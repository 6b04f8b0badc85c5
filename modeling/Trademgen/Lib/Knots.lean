import Mathlib

/-!
Tables of knots: scanning a list for the first entry above a value, and the piecewise-linear
function through the points of a table.

A table is given by the abscissas `v` and the ordinates `c` of its knots, numbered from `0`.
Nothing is asked of the ordinates; the abscissas increase strictly wherever that matters.
-/

namespace Knots

variable {K : Type} [LinearOrder K]

/-- The number of the first entry above `x`, or the length if there is none. -/
def firstAbove (x : K) (xs : List K) : ℕ := xs.findIdx fun y => decide (x < y)

lemma firstAbove_le_length (x : K) (xs : List K) : firstAbove x xs ≤ xs.length :=
  List.findIdx_le_length

lemma le_of_lt_firstAbove {x d : K} {xs : List K} {j : ℕ} (h : j < firstAbove x xs) :
    xs.getD j d ≤ x := by
  have hj : j < xs.length := lt_of_lt_of_le h (firstAbove_le_length x xs)
  have := List.not_of_lt_findIdx h
  rw [List.getD_eq_getElem _ _ hj]
  simpa using this

lemma lt_firstAbove {x d : K} {xs : List K} (h : firstAbove x xs < xs.length) :
    x < xs.getD (firstAbove x xs) d := by
  have := List.findIdx_getElem (w := h)
  rw [List.getD_eq_getElem _ _ h]
  exact of_decide_eq_true this

lemma firstAbove_eq {x d : K} {xs : List K} {i : ℕ} (hi : i < xs.length)
    (hlt : x < xs.getD i d) (hle : ∀ j < i, xs.getD j d ≤ x) : firstAbove x xs = i := by
  refine (List.findIdx_eq hi).mpr ⟨?_, fun j hj => ?_⟩
  · rw [List.getD_eq_getElem _ _ hi] at hlt
    simpa using hlt
  · have := hle j hj
    rw [List.getD_eq_getElem _ _ (hj.trans hi)] at this
    simpa using this

lemma firstAbove_eq_length {x d : K} {xs : List K} (hle : ∀ j < xs.length, xs.getD j d ≤ x) :
    firstAbove x xs = xs.length := by
  refine le_antisymm (firstAbove_le_length x xs) (not_lt.mp fun h => ?_)
  exact absurd (hle _ h) (not_le.mpr (lt_firstAbove h))

/-- Strictly increasing up to the knot `n`. -/
def Increasing (v : ℕ → K) (n : ℕ) : Prop := ∀ i < n, v i < v (i + 1)

lemma Increasing.lt {v : ℕ → K} {n : ℕ} (hv : Increasing v n) {i j : ℕ} (hij : i < j)
    (hj : j ≤ n) : v i < v j := by
  induction j, hij using Nat.le_induction with
  | base => exact hv i (by omega)
  | succ j hij ih => exact (ih (by omega)).trans (hv j (by omega))

lemma Increasing.le {v : ℕ → K} {n : ℕ} (hv : Increasing v n) {i j : ℕ} (hij : i ≤ j)
    (hj : j ≤ n) : v i ≤ v j := by
  rcases hij.eq_or_lt with rfl | hij
  · exact le_rfl
  · exact (hv.lt hij hj).le

lemma Increasing.mono {v : ℕ → K} {n m : ℕ} (hv : Increasing v n) (h : m ≤ n) : Increasing v m :=
  fun i hi => hv i (by omega)

/-- Every value from the first knot on, up to the last one, lies in one interval. -/
lemma exists_interval {v : ℕ → K} {x : K} : ∀ {n : ℕ}, v 0 ≤ x → x < v n →
    ∃ i < n, v i ≤ x ∧ x < v (i + 1)
  | 0, h0, hn => absurd (h0.trans_lt hn) (lt_irrefl _)
  | n + 1, h0, hn => by
    rcases lt_or_ge x (v n) with h | h
    · obtain ⟨i, hi, h1⟩ := exists_interval h0 h
      exact ⟨i, by omega, h1⟩
    · exact ⟨n, by omega, h, hn⟩

section Linear

variable [Field K]

/-- The slope of the piece that starts at the knot `i`. -/
def slopeOf (v c : ℕ → K) (i : ℕ) : K := (c (i + 1) - c i) / (v (i + 1) - v i)

/-- The piecewise-linear function through the first knots, up to the knot `n`. -/
def interp (v c : ℕ → K) : ℕ → K → K
  | 0, _ => c 0
  | n + 1, x => if x < v n then interp v c n x else c n + slopeOf v c n * (x - v n)

lemma interp_succ (v c : ℕ → K) (n : ℕ) (x : K) :
    interp v c (n + 1) x
      = if x < v n then interp v c n x else c n + slopeOf v c n * (x - v n) := rfl

lemma slopeOf_mul {v c : ℕ → K} {i : ℕ} (h : v i < v (i + 1)) :
    slopeOf v c i * (v (i + 1) - v i) = c (i + 1) - c i :=
  div_mul_cancel₀ _ (sub_ne_zero.mpr h.ne')

lemma interp_knot {v c : ℕ → K} {n : ℕ} (hv : Increasing v n) :
    ∀ {i : ℕ}, i ≤ n → interp v c n (v i) = c i := by
  induction n with
  | zero =>
    intro i hi
    obtain rfl : i = 0 := by omega
    rfl
  | succ n ih =>
    intro i hi
    unfold interp
    rcases Nat.lt_trichotomy i n with h | rfl | h
    · rw [if_pos (hv.lt h (by omega)), ih (hv.mono (by omega)) (by omega)]
    · simp
    · obtain rfl : i = n + 1 := by omega
      rw [if_neg (not_lt.mpr (hv n (by omega)).le), slopeOf_mul (hv n (by omega))]
      ring

/-- On the piece between two knots the function is the line through them. -/
lemma interp_of_mem {v c : ℕ → K} {n i : ℕ} {x : K} (hv : Increasing v n) (hi : i < n)
    (h0 : v i ≤ x) (h1 : x ≤ v (i + 1)) :
    interp v c n x = c i + slopeOf v c i * (x - v i) := by
  induction n with
  | zero => omega
  | succ n ih =>
    rcases Nat.lt_succ_iff_lt_or_eq.mp hi with h | rfl
    · rcases h1.lt_or_eq with h1 | rfl
      · have hx : x < v n := h1.trans_le (hv.le (by omega) (by omega))
        unfold interp
        rw [if_pos hx, ih (hv.mono (by omega)) h]
      · rw [interp_knot hv (by omega), slopeOf_mul (hv i hi)]
        ring
    · unfold interp
      rw [if_neg (not_lt.mpr h0)]

/-- Between two points of one piece the function grows by the slope times the distance. -/
lemma interp_sub {v c : ℕ → K} {n i : ℕ} {x y : K} (hv : Increasing v n) (hi : i < n)
    (hx0 : v i ≤ x) (hx1 : x ≤ v (i + 1)) (hy0 : v i ≤ y) (hy1 : y ≤ v (i + 1)) :
    interp v c n y - interp v c n x = slopeOf v c i * (y - x) := by
  calc interp v c n y - interp v c n x
      = (c i + slopeOf v c i * (y - v i)) - (c i + slopeOf v c i * (x - v i)) := by
        rw [interp_of_mem hv hi hx0 hx1, interp_of_mem hv hi hy0 hy1]
    _ = slopeOf v c i * (y - x) := by ring

/-- Before the first knot the function is constant. -/
lemma interp_of_lt {v c : ℕ → K} {n : ℕ} (hv : Increasing v n) {x : K} (h : x < v 0) :
    interp v c n x = c 0 := by
  induction n with
  | zero => rfl
  | succ n ih =>
    have hx : x < v n := h.trans_le (hv.le (Nat.zero_le n) (by omega))
    rw [interp_succ, if_pos hx, ih (hv.mono (by omega))]

variable [IsStrictOrderedRing K]

lemma slopeOf_pos {v c : ℕ → K} {i : ℕ} (hv : v i < v (i + 1)) (hc : c i < c (i + 1)) :
    0 < slopeOf v c i :=
  div_pos (sub_pos.mpr hc) (sub_pos.mpr hv)

/-- Where the ordinates increase too, the function does, from the first knot on. -/
lemma interp_strictMonoOn {v c : ℕ → K} {n : ℕ} (hn : 0 < n) (hv : Increasing v n)
    (hc : Increasing c n) : StrictMonoOn (interp v c n) (Set.Ici (v 0)) := by
  obtain ⟨n, rfl⟩ : ∃ m, n = m + 1 := ⟨n - 1, by omega⟩
  clear hn
  induction n with
  | zero =>
    intro x hx y _ hxy
    have hs := slopeOf_pos (hv 0 Nat.zero_lt_one) (hc 0 Nat.zero_lt_one)
    have hxy' := mul_lt_mul_of_pos_left (sub_lt_sub_right hxy (v 0)) hs
    rw [interp_succ, interp_succ, if_neg (not_lt.mpr hx), if_neg (not_lt.mpr (hx.trans hxy.le))]
    linarith
  | succ n ih =>
    have ih := ih (hv.mono (by omega)) (hc.mono (by omega))
    intro x hx y hy hxy
    have hs := slopeOf_pos (hv (n + 1) (by omega)) (hc (n + 1) (by omega))
    have h0 : v (n + 1) ∈ Set.Ici (v 0) := hv.le (Nat.zero_le _) (by omega)
    have hknot : interp v c (n + 1) (v (n + 1)) = c (n + 1) :=
      interp_knot (hv.mono (by omega)) le_rfl
    rw [interp_succ v c (n + 1) x, interp_succ v c (n + 1) y]
    rcases lt_or_ge y (v (n + 1)) with hyn | hyn
    · rw [if_pos (hxy.trans hyn), if_pos hyn]
      exact ih hx hy hxy
    · rw [if_neg (not_lt.mpr hyn)]
      have hy' : 0 ≤ slopeOf v c (n + 1) * (y - v (n + 1)) :=
        mul_nonneg hs.le (sub_nonneg.mpr hyn)
      rcases lt_or_ge x (v (n + 1)) with hxn | hxn
      · rw [if_pos hxn]
        have hlt := ih hx h0 hxn
        rw [hknot] at hlt
        linarith
      · rw [if_neg (not_lt.mpr hxn)]
        have hxy' := mul_lt_mul_of_pos_left (sub_lt_sub_right hxy (v (n + 1))) hs
        linarith

/-- The point of a piece at which the line through its knots takes the value `p` lies on the
piece. -/
lemma inverse_mem {a b p q r : K} (hab : a ≤ b) (hqp : q ≤ p) (hpr : p < r) :
    a ≤ a + (b - a) * (p - q) / (r - q) ∧ a + (b - a) * (p - q) / (r - q) ≤ b := by
  have hr : 0 < r - q := sub_pos.mpr (hqp.trans_lt hpr)
  have hp : 0 ≤ p - q := sub_nonneg.mpr hqp
  have hb : 0 ≤ b - a := sub_nonneg.mpr hab
  refine ⟨le_add_of_nonneg_right (div_nonneg (mul_nonneg hb hp) hr.le), ?_⟩
  have h1 : (b - a) * (p - q) / (r - q) ≤ b - a := by
    rw [div_le_iff₀ hr]
    exact mul_le_mul_of_nonneg_left (by linarith) hb
  calc a + (b - a) * (p - q) / (r - q) ≤ a + (b - a) := add_le_add_right h1 a
    _ = b := add_sub_cancel a b

/-- It lies before the end of the piece, as `p` is below the ordinate there. -/
lemma inverse_lt {a b p q r : K} (hab : a < b) (hqp : q ≤ p) (hpr : p < r) :
    a + (b - a) * (p - q) / (r - q) < b := by
  have hr : 0 < r - q := sub_pos.mpr (hqp.trans_lt hpr)
  have h1 : (b - a) * (p - q) / (r - q) < b - a := by
    rw [div_lt_iff₀ hr]
    exact mul_lt_mul_of_pos_left (by linarith) (sub_pos.mpr hab)
  calc a + (b - a) * (p - q) / (r - q) < a + (b - a) := add_lt_add_right h1 a
    _ = b := add_sub_cancel a b

/-! The points that the function reaches without going above a value. -/

def reached (v c : ℕ → K) (n : ℕ) (p : K) : Set K :=
  {w | v 0 ≤ w ∧ w ≤ v n ∧ ∀ y, v 0 ≤ y → y ≤ w → interp v c n y ≤ p}

omit [IsStrictOrderedRing K] in
lemma reached_mono {v c : ℕ → K} {n : ℕ} {p q : K} (h : p ≤ q) :
    reached v c n p ⊆ reached v c n q := by
  rintro w ⟨h0, h1, hw⟩
  exact ⟨h0, h1, fun y hy0 hy1 => (hw y hy0 hy1).trans h⟩

/-- A line lies below every value that is above its two ends. -/
lemma interp_piece_le {v c : ℕ → K} {n i : ℕ} {w p : K} (hv : Increasing v n) (hi : i < n)
    (h0 : v i ≤ w) (h1 : w ≤ v (i + 1)) (hc0 : c i ≤ p) (hc1 : c (i + 1) ≤ p) :
    interp v c n w ≤ p := by
  have hd : 0 < v (i + 1) - v i := sub_pos.mpr (hv i hi)
  have hs : (v (i + 1) - v i) * slopeOf v c i = c (i + 1) - c i := by
    rw [mul_comm, slopeOf_mul (hv i hi)]
  refine le_of_mul_le_mul_left ?_ hd
  calc (v (i + 1) - v i) * interp v c n w
      = (v (i + 1) - v i) * (c i + slopeOf v c i * (w - v i)) := by
        rw [interp_of_mem hv hi h0 h1]
    _ = (v (i + 1) - v i) * c i + (v (i + 1) - v i) * slopeOf v c i * (w - v i) := by ring
    _ = (v (i + 1) - w) * c i + (w - v i) * c (i + 1) := by rw [hs]; ring
    _ ≤ (v (i + 1) - w) * p + (w - v i) * p :=
        add_le_add (mul_le_mul_of_nonneg_left hc0 (sub_nonneg.mpr h1))
          (mul_le_mul_of_nonneg_left hc1 (sub_nonneg.mpr h0))
    _ = (v (i + 1) - v i) * p := by ring

lemma interp_le {v c : ℕ → K} {n i : ℕ} {w p : K} (hv : Increasing v n) (hi : i ≤ n)
    (hc : ∀ j ≤ i, c j ≤ p) (h0 : v 0 ≤ w) (h1 : w ≤ v i) : interp v c n w ≤ p := by
  rcases h1.lt_or_eq with h1 | rfl
  · obtain ⟨j, hj, hj0, hj1⟩ := exists_interval h0 h1
    exact interp_piece_le hv (by omega) hj0 hj1.le (hc j (by omega)) (hc (j + 1) (by omega))
  · rw [interp_knot hv hi]
    exact hc i le_rfl

/-- The function takes the value `p` at the point found on a piece. -/
lemma interp_inverse {v c : ℕ → K} {n i : ℕ} {p : K} (hv : Increasing v n) (hi : i < n)
    (h0 : c i ≤ p) (h1 : p < c (i + 1)) :
    interp v c n (v i + (v (i + 1) - v i) * (p - c i) / (c (i + 1) - c i)) = p := by
  obtain ⟨hx0, hx1⟩ := inverse_mem (hv i hi).le h0 h1
  have hc : c (i + 1) - c i ≠ 0 := (sub_pos.mpr (h0.trans_lt h1)).ne'
  have hd : v (i + 1) - v i ≠ 0 := (sub_pos.mpr (hv i hi)).ne'
  rw [interp_of_mem hv hi hx0 hx1, slopeOf]
  field_simp
  ring

/-- Past the point found on a piece the function is above `p` at once. -/
lemma isGreatest_reached_between {v c : ℕ → K} {n i : ℕ} {p : K} (hv : Increasing v n)
    (hi : i < n) (hc : ∀ j ≤ i, c j ≤ p) (hp : p < c (i + 1)) :
    IsGreatest (reached v c n p) (v i + (v (i + 1) - v i) * (p - c i) / (c (i + 1) - c i)) := by
  have hci : c i ≤ p := hc i le_rfl
  obtain ⟨hx0, hx1⟩ := inverse_mem (hv i hi).le hci hp
  have hFx := interp_inverse hv hi hci hp
  set x := v i + (v (i + 1) - v i) * (p - c i) / (c (i + 1) - c i)
  have hs : 0 < slopeOf v c i := slopeOf_pos (hv i hi) (hci.trans_lt hp)
  refine ⟨⟨(hv.le (Nat.zero_le i) hi.le).trans hx0, hx1.trans (hv.le hi le_rfl),
    fun y hy0 hyx => ?_⟩, fun w hw => ?_⟩
  · rcases le_or_gt y (v i) with hyi | hyi
    · exact interp_le hv hi.le hc hy0 hyi
    · have hsub := interp_sub hv hi hyi.le (hyx.trans hx1) hx0 hx1 (c := c)
      have := mul_nonneg hs.le (sub_nonneg.mpr hyx)
      linarith
  · by_contra hxw
    have hxy : x < min w (v (i + 1)) := by
      refine lt_min (not_le.mp hxw) (hx1.lt_of_ne fun heq => ?_)
      rw [heq, interp_knot hv hi] at hFx
      exact hp.ne' hFx
    have hle := hw.2.2 (min w (v (i + 1)))
      ((hv.le (Nat.zero_le i) hi.le).trans (hx0.trans hxy.le)) (min_le_left _ _)
    have hsub := interp_sub hv hi hx0 hx1 (hx0.trans hxy.le) (min_le_right w _) (c := c)
    have := mul_pos hs (sub_pos.mpr hxy)
    linarith

/-- A function that never goes above `p` reaches the last knot. -/
lemma isGreatest_reached_last {v c : ℕ → K} {n : ℕ} {p : K} (hv : Increasing v n)
    (hc : ∀ j ≤ n, c j ≤ p) : IsGreatest (reached v c n p) (v n) :=
  ⟨⟨hv.le (Nat.zero_le n) le_rfl, le_rfl, fun _ hy0 hyn => interp_le hv le_rfl hc hy0 hyn⟩,
    fun _ hw => hw.2.1⟩

end Linear

end Knots
