import Trademgen.Environment
import Trademgen.Lib.Knots
import Trademgen.Lib.OrderedMap

/-!
Continuous and categorical attributes: the tables that turn a variate into a value.

A continuous attribute keeps the knots of a cumulative distribution in two arrays, a
categorical one the running sums of the positive masses. `DictionaryManager` codes a
probability by itself, so its two conversions are not written.
-/

set_option linter.unusedSectionVars false

namespace Trademgen

open OrderedMap Knots

/-- `std::vector::at`. -/
def vectorAt {α : Type} (xs : List α) (i : ℕ) : Except Fault α :=
  match xs[i]? with
  | some x => .ok x
  | none => .error .outOfRange

lemma vectorAt_eq {α : Type} {xs : List α} {i : ℕ} (d : α) (h : i < xs.length) :
    vectorAt xs i = .ok (xs.getD i d) := by
  simp [vectorAt, h]

lemma exists_vectorAt {α : Type} {xs : List α} {i : ℕ} (h : i < xs.length) :
    ∃ x, vectorAt xs i = .ok x :=
  ⟨xs[i], by simp [vectorAt, h]⟩

/-- The conversions between a value type and the arithmetic of the tables. -/
class Numeric (T K : Type) where
  toReal : T → K
  ofReal : K → T

instance {K : Type} : Numeric K K := ⟨id, id⟩

/-- `IntDuration_T` is an integer type: it is converted exactly one way and truncated toward
zero the other. -/
instance {K : Type} [Field K] [LinearOrder K] [FloorRing K] : Numeric ℤ K where
  toReal n := n
  ofReal x := if 0 ≤ x then ⌊x⌋ else ⌈x⌉

/-! ### Continuous attributes -/

structure ContinuousAttributeLite (T K : Type) [LinearOrder T] where
  size : ℕ
  cumulativeDistribution : List K
  valueArray : List T
  length_cumulativeDistribution : cumulativeDistribution.length = size
  length_valueArray : valueArray.length = size
  valueArray_sorted : valueArray.Pairwise (· < ·)

namespace ContinuousAttributeLite

section General

variable {T K : Type} [LinearOrder T]

/-- The constructor, from a map of values to cumulative probabilities. -/
def init (iValueMap : OMap T K) : ContinuousAttributeLite T K where
  size := iValueMap.pairs.length
  cumulativeDistribution := iValueMap.values
  valueArray := iValueMap.keys
  length_cumulativeDistribution := iValueMap.length_values
  length_valueArray := iValueMap.length_keys
  valueArray_sorted := iValueMap.sorted

variable [Field K] [LinearOrder K] [Numeric T K]

/-- The value at a cumulative probability. -/
def getValue (a : ContinuousAttributeLite T K) (iCumulativeProbability : K) : Except Fault T :=
  let idx := firstAbove iCumulativeProbability a.cumulativeDistribution
  if idx = 0 then vectorAt a.valueArray idx
  else if idx = a.size then vectorAt a.valueArray (idx - 1)
  else do
    let lCumulativeCurrentPoint ← vectorAt a.cumulativeDistribution idx
    let lValueCurrentPoint ← vectorAt a.valueArray idx
    let lCumulativePreviousPoint ← vectorAt a.cumulativeDistribution (idx - 1)
    let lValuePreviousPoint ← vectorAt a.valueArray (idx - 1)
    if lCumulativePreviousPoint = lCumulativeCurrentPoint then
      return lValuePreviousPoint
    return Numeric.ofReal (Numeric.toReal lValuePreviousPoint
      + (Numeric.toReal lValueCurrentPoint - Numeric.toReal lValuePreviousPoint)
        * (iCumulativeProbability - lCumulativePreviousPoint)
        / (lCumulativeCurrentPoint - lCumulativePreviousPoint))

/-- The derivative of the cumulative function in a value. -/
def getDerivativeValue (a : ContinuousAttributeLite T K) (iKey : T) : Except Fault K :=
  let idx := firstAbove iKey a.valueArray
  if idx = 0 then .error .assertion
  else if idx = a.size then .error .assertion
  else do
    let lCumulativeCurrentPoint ← vectorAt a.cumulativeDistribution idx
    let lValueCurrentPoint ← vectorAt a.valueArray idx
    let lCumulativePreviousPoint ← vectorAt a.cumulativeDistribution (idx - 1)
    let lValuePreviousPoint ← vectorAt a.valueArray (idx - 1)
    if lValueCurrentPoint = lValuePreviousPoint then throw .assertion
    return (lCumulativeCurrentPoint - lCumulativePreviousPoint)
      / (Numeric.toReal lValueCurrentPoint - Numeric.toReal lValuePreviousPoint)

/-- The least knot above a value. -/
def getUpperBound (a : ContinuousAttributeLite T K) (iKey : T) : Except Fault T :=
  let idx := firstAbove iKey a.valueArray
  if idx = 0 then .error .assertion
  else if idx = a.size then .error .assertion
  else vectorAt a.valueArray idx

/-- A table with at least one knot has a value at every probability. -/
lemma exists_getValue (a : ContinuousAttributeLite T K) (h : 0 < a.size) (p : K) :
    ∃ x, a.getValue p = .ok x := by
  have hv := a.length_valueArray
  have hc := a.length_cumulativeDistribution
  have hle := firstAbove_le_length p a.cumulativeDistribution
  unfold getValue
  generalize firstAbove p a.cumulativeDistribution = idx at hle ⊢
  by_cases h0 : idx = 0
  · simp only [h0, if_true]
    exact exists_vectorAt (by omega)
  by_cases h1 : idx = a.size
  · simp only [h1, h.ne', if_true, if_false]
    exact exists_vectorAt (by omega)
  · obtain ⟨c1, hc1⟩ := exists_vectorAt (show idx < a.cumulativeDistribution.length by omega)
    obtain ⟨v1, hv1⟩ := exists_vectorAt (show idx < a.valueArray.length by omega)
    obtain ⟨c0, hc0⟩ := exists_vectorAt (show idx - 1 < a.cumulativeDistribution.length by omega)
    obtain ⟨v0, hv0⟩ := exists_vectorAt (show idx - 1 < a.valueArray.length by omega)
    simp only [h0, h1, if_false, hc1, hv1, hc0, hv0, bind, Except.bind]
    split <;> exact ⟨_, rfl⟩

/-- A table that has a value has a knot. -/
lemma size_pos (a : ContinuousAttributeLite T K) {p : K} {x : T} (h : a.getValue p = .ok x) :
    0 < a.size := by
  by_contra hc
  have hv : a.valueArray = [] := List.length_eq_zero_iff.mp (by rw [a.length_valueArray]; omega)
  have hcum : a.cumulativeDistribution = [] :=
    List.length_eq_zero_iff.mp (by rw [a.length_cumulativeDistribution]; omega)
  simp [getValue, hv, hcum, firstAbove, vectorAt] at h

/-- A table with one knot has its value at every probability. -/
lemma getValue_single (x : T) (y p : K) : (init (OMap.ofPairs [(x, y)])).getValue p = .ok x := by
  have hc : (init (OMap.ofPairs [(x, y)])).cumulativeDistribution = [y] := rfl
  have hle := firstAbove_le_length p [y]
  unfold getValue
  rw [hc]
  rcases Nat.le_one_iff_eq_zero_or_eq_one.mp hle with h | h
  · rw [h]
    rfl
  · rw [h]
    rfl

end General

/-! ### Tables over the reals -/

section Real

variable {K : Type} [Field K] [LinearOrder K]

/-- The knot `i`. -/
def v (a : ContinuousAttributeLite K K) (i : ℕ) : K := a.valueArray.getD i 0

/-- The cumulative probability at the knot `i`. -/
def c (a : ContinuousAttributeLite K K) (i : ℕ) : K := a.cumulativeDistribution.getD i 0

variable (a : ContinuousAttributeLite K K)

lemma vectorAt_v {i : ℕ} (h : i < a.size) : vectorAt a.valueArray i = .ok (a.v i) :=
  vectorAt_eq 0 (by rw [a.length_valueArray]; exact h)

lemma vectorAt_c {i : ℕ} (h : i < a.size) : vectorAt a.cumulativeDistribution i = .ok (a.c i) :=
  vectorAt_eq 0 (by rw [a.length_cumulativeDistribution]; exact h)

lemma increasing_v : Increasing a.v (a.size - 1) := by
  intro i hi
  have h1 : i + 1 < a.valueArray.length := by rw [a.length_valueArray]; omega
  have h := (List.pairwise_iff_getElem.mp a.valueArray_sorted) i (i + 1) (by omega) h1 (by omega)
  unfold v
  rwa [List.getD_eq_getElem _ _ h1, List.getD_eq_getElem _ _ (by omega)]

lemma v_lt {i j : ℕ} (hij : i < j) (hj : j < a.size) : a.v i < a.v j :=
  a.increasing_v.lt hij (by omega)

lemma v_le {i j : ℕ} (hij : i ≤ j) (hj : j < a.size) : a.v i ≤ a.v j :=
  a.increasing_v.le hij (by omega)

/-- Below the first cumulative probability the value is the first knot. -/
lemma getValue_first {p : K} (h : 0 < a.size)
    (hidx : firstAbove p a.cumulativeDistribution = 0) : a.getValue p = .ok (a.v 0) := by
  simp [getValue, hidx, a.vectorAt_v h]

/-- Past every cumulative probability the value is the last knot. -/
lemma getValue_last {p : K} (h : 0 < a.size)
    (hidx : firstAbove p a.cumulativeDistribution = a.size) :
    a.getValue p = .ok (a.v (a.size - 1)) := by
  simp [getValue, hidx, h.ne', a.vectorAt_v (show a.size - 1 < a.size by omega)]

lemma firstAbove_c_le_size (p : K) : firstAbove p a.cumulativeDistribution ≤ a.size :=
  (firstAbove_le_length p a.cumulativeDistribution).trans_eq a.length_cumulativeDistribution

/-- The scan of the probabilities stops at the first one above. -/
lemma c_le_of_lt {p : K} {i : ℕ} (h : i < firstAbove p a.cumulativeDistribution) : a.c i ≤ p :=
  le_of_lt_firstAbove h

lemma lt_c {p : K} {i : ℕ} (hi : i < a.size)
    (hidx : firstAbove p a.cumulativeDistribution = i) : p < a.c i := by
  subst hidx
  exact lt_firstAbove (by rw [a.length_cumulativeDistribution]; exact hi)

lemma firstAbove_c_le {p : K} {i : ℕ} (h : p < a.c i) :
    firstAbove p a.cumulativeDistribution ≤ i := by
  by_contra hlt
  exact absurd (a.c_le_of_lt (not_le.mp hlt)) (not_le.mpr h)

/-- Where it stops at the end of a piece, the probabilities of the piece enclose the one looked
up. -/
lemma c_piece {p : K} {i : ℕ} (hi : i + 1 < a.size)
    (hidx : firstAbove p a.cumulativeDistribution = i + 1) : a.c i ≤ p ∧ p < a.c (i + 1) :=
  ⟨a.c_le_of_lt (by omega), a.lt_c hi hidx⟩

/-- From the first probability on, and below another one, it stops at the end of a piece. -/
lemma exists_piece {p : K} (hp : a.c 0 ≤ p) (hpc : ∃ j < a.size, p < a.c j) :
    ∃ i, i + 1 < a.size ∧ firstAbove p a.cumulativeDistribution = i + 1 := by
  obtain ⟨j, hj, hpj⟩ := hpc
  have hle := a.firstAbove_c_le hpj
  cases hidx : firstAbove p a.cumulativeDistribution with
  | zero => exact absurd (a.lt_c (by omega) hidx) (not_lt.mpr hp)
  | succ i => exact ⟨i, by omega, rfl⟩

/-- Elsewhere the value is found on the line between two knots. -/
lemma getValue_between {p : K} {i : ℕ} (hi : i + 1 < a.size)
    (hidx : firstAbove p a.cumulativeDistribution = i + 1) :
    a.getValue p
      = .ok (a.v i + (a.v (i + 1) - a.v i) * (p - a.c i) / (a.c (i + 1) - a.c i)) := by
  have hne : i + 1 ≠ a.size := by omega
  have h2 : i < a.size := by omega
  obtain ⟨h0, h1⟩ := a.c_piece hi hidx
  have hc : a.c i ≠ a.c (i + 1) := (h0.trans_lt h1).ne
  simp [getValue, hidx, hne, a.vectorAt_v hi, a.vectorAt_c hi, a.vectorAt_v h2, a.vectorAt_c h2,
    bind, Except.bind, hc, pure, Except.pure, Numeric.toReal, Numeric.ofReal]

/-- The scan of the values stops at the end of the interval. -/
lemma firstAbove_v {i : ℕ} {x : K} (hi : i + 1 < a.size) (h0 : a.v i ≤ x) (h1 : x < a.v (i + 1)) :
    firstAbove x a.valueArray = i + 1 :=
  firstAbove_eq (by rw [a.length_valueArray]; exact hi) h1
    fun _ hj => (a.v_le (by omega) (by omega)).trans h0

lemma getUpperBound_eq {i : ℕ} {x : K} (hi : i + 1 < a.size) (h0 : a.v i ≤ x)
    (h1 : x < a.v (i + 1)) : a.getUpperBound x = .ok (a.v (i + 1)) := by
  have hne : i + 1 ≠ a.size := by omega
  simp [getUpperBound, a.firstAbove_v hi h0 h1, hne, a.vectorAt_v hi]

lemma getDerivativeValue_eq {i : ℕ} {x : K} (hi : i + 1 < a.size) (h0 : a.v i ≤ x)
    (h1 : x < a.v (i + 1)) : a.getDerivativeValue x = .ok (slopeOf a.v a.c i) := by
  have hne : i + 1 ≠ a.size := by omega
  have hv : a.v (i + 1) ≠ a.v i := (a.v_lt (by omega) hi).ne'
  have h2 : i < a.size := by omega
  simp [getDerivativeValue, a.firstAbove_v hi h0 h1, hne, a.vectorAt_v hi, a.vectorAt_c hi,
    a.vectorAt_v h2, a.vectorAt_c h2, bind, Except.bind, hv, pure, Except.pure, slopeOf,
    Numeric.toReal]

/-- An upper bound is a knot above. -/
lemma exists_knot_of_getUpperBound {x b : K} (h : a.getUpperBound x = .ok b) :
    ∃ j < a.size, a.v j = b ∧ x < a.v j := by
  have hle := firstAbove_le_length x a.valueArray
  rw [a.length_valueArray] at hle
  unfold getUpperBound at h
  dsimp only at h
  split_ifs at h with h0 h1
  have hlt : firstAbove x a.valueArray < a.size := by omega
  rw [a.vectorAt_v hlt] at h
  cases h
  exact ⟨_, hlt, rfl, lt_firstAbove (by rw [a.length_valueArray]; exact hlt)⟩

/-- Past the last knot there is no upper bound. -/
lemma getUpperBound_last {x : K} (h : ∀ i < a.size, a.v i ≤ x) :
    a.getUpperBound x = .error .assertion := by
  have hidx : firstAbove x a.valueArray = a.size := by
    rw [← a.length_valueArray]
    exact firstAbove_eq_length (d := 0) (by rw [a.length_valueArray]; exact h)
  simp [getUpperBound, hidx]

/-! The table of a list of pairs in increasing order. -/

lemma init_size {l : List (K × K)} (h : (l.map Prod.fst).Pairwise (· < ·)) :
    (init (OMap.ofPairs l)).size = l.length := by
  change (OMap.ofPairs l).pairs.length = l.length
  rw [OMap.ofPairs_pairs h]

lemma init_v {l : List (K × K)} (h : (l.map Prod.fst).Pairwise (· < ·)) (i : ℕ) :
    (init (OMap.ofPairs l)).v i = (l.map Prod.fst).getD i 0 := by
  change ((OMap.ofPairs l).pairs.map Prod.fst).getD i 0 = _
  rw [OMap.ofPairs_pairs h]

lemma init_cumulativeDistribution {l : List (K × K)} (h : (l.map Prod.fst).Pairwise (· < ·)) :
    (init (OMap.ofPairs l)).cumulativeDistribution = l.map Prod.snd := by
  change (OMap.ofPairs l).pairs.map Prod.snd = _
  rw [OMap.ofPairs_pairs h]

lemma init_c {l : List (K × K)} (h : (l.map Prod.fst).Pairwise (· < ·)) (i : ℕ) :
    (init (OMap.ofPairs l)).c i = (l.map Prod.snd).getD i 0 := by
  unfold c
  rw [init_cumulativeDistribution h]

/-- The table of two pairs. -/
lemma init_pair {v₀ v₁ : K} (h : v₀ < v₁) (c₀ c₁ : K) :
    let a := init (OMap.ofPairs [(v₀, c₀), (v₁, c₁)])
    a.size = 2 ∧ a.v 0 = v₀ ∧ a.v 1 = v₁ ∧ a.c 0 = c₀ ∧ a.c 1 = c₁ := by
  have hpairs : ([(v₀, c₀), (v₁, c₁)].map Prod.fst).Pairwise (· < ·) := by simpa using h
  exact ⟨init_size hpairs, init_v hpairs 0, init_v hpairs 1, init_c hpairs 0, init_c hpairs 1⟩

section Ordered

variable [IsStrictOrderedRing K]

/-- The value lies on the piece at which the scan of the probabilities stops, before its end, and
the cumulative function takes the probability there. -/
lemma getValue_inside {p : K} {i : ℕ} (hi : i + 1 < a.size)
    (hidx : firstAbove p a.cumulativeDistribution = i + 1) :
    ∃ x, a.getValue p = .ok x ∧ a.v i ≤ x ∧ x < a.v (i + 1) ∧
      interp a.v a.c (a.size - 1) x = p := by
  have hv := a.v_lt (Nat.lt_succ_self i) hi
  obtain ⟨h0, h1⟩ := a.c_piece hi hidx
  exact ⟨_, a.getValue_between hi hidx, (inverse_mem hv.le h0 h1).1, inverse_lt hv h0 h1,
    interp_inverse a.increasing_v (by omega) h0 h1⟩

/-- Every value lies between the first knot and the last one. -/
lemma getValue_mem (h : 0 < a.size) (p : K) :
    ∃ x, a.getValue p = .ok x ∧ a.v 0 ≤ x ∧ x ≤ a.v (a.size - 1) := by
  have hle := a.firstAbove_c_le_size p
  cases hidx : firstAbove p a.cumulativeDistribution with
  | zero => exact ⟨_, a.getValue_first h hidx, le_rfl, a.v_le (by omega) (by omega)⟩
  | succ i =>
    rcases hle.lt_or_eq with hlt | heq
    · obtain ⟨x, hx, h0, h1, -⟩ := a.getValue_inside (by omega) hidx
      exact ⟨x, hx, (a.v_le (by omega) (by omega)).trans h0,
        h1.le.trans (a.v_le (by omega) (by omega))⟩
    · exact ⟨_, a.getValue_last h heq, a.v_le (by omega) (by omega), le_rfl⟩

/-- From the first cumulative probability on, the value is the furthest point that the
cumulative function reaches without going above the probability. -/
lemma getValue_isGreatest {p x : K} (h : 0 < a.size) (hp : a.c 0 ≤ p) (hx : a.getValue p = .ok x) :
    IsGreatest (reached a.v a.c (a.size - 1) p) x := by
  have hle := a.firstAbove_c_le_size p
  cases hidx : firstAbove p a.cumulativeDistribution with
  | zero => exact absurd (a.lt_c h hidx) (not_lt.mpr hp)
  | succ i =>
    have hc (j : ℕ) (hj : j ≤ i) : a.c j ≤ p := a.c_le_of_lt (by omega)
    rcases hle.lt_or_eq with hlt | heq
    · rw [a.getValue_between (by omega) hidx] at hx
      cases hx
      exact isGreatest_reached_between a.increasing_v (by omega) hc (a.lt_c (by omega) hidx)
    · rw [a.getValue_last h heq] at hx
      cases hx
      exact isGreatest_reached_last a.increasing_v fun j hj => hc j (by omega)

/-- A larger probability has a later value, whatever the table. -/
lemma getValue_mono (h : 0 < a.size) {p q x y : K} (hpq : p ≤ q) (hx : a.getValue p = .ok x)
    (hy : a.getValue q = .ok y) : x ≤ y := by
  rcases lt_or_ge p (a.c 0) with hp | hp
  · have hidx := a.firstAbove_c_le hp
    rw [a.getValue_first h (by omega)] at hx
    cases hx
    obtain ⟨z, hz, h0, -⟩ := a.getValue_mem h q
    cases hy.symm.trans hz
    exact h0
  -- What the cumulative function reaches below the smaller probability, it reaches below both.
  · exact (a.getValue_isGreatest h hp hx).mono (a.getValue_isGreatest h (hp.trans hpq) hy)
      (reached_mono hpq)

end Ordered

end Real

end ContinuousAttributeLite

/-! ### Categorical attributes -/

structure CategoricalAttributeLite (T K : Type) where
  size : ℕ
  cumulativeDistribution : List K
  valueArray : List T
  length_cumulativeDistribution : cumulativeDistribution.length = size
  length_valueArray : valueArray.length = size

namespace CategoricalAttributeLite

variable {T K : Type} [Field K] [LinearOrder K]

/-- The pairs of a value and a running sum, entries of no positive mass left out. -/
def cumulate : K → List (T × K) → List (T × K)
  | _, [] => []
  | lSoFar, (value, mass) :: r =>
    if 0 < mass then (value, lSoFar + mass) :: cumulate (lSoFar + mass) r
    else cumulate lSoFar r

/-- The constructor, from a map of values to masses. -/
def init [LinearOrder T] (iValueMap : OMap T K) : CategoricalAttributeLite T K where
  size := (cumulate 0 iValueMap.pairs).length
  cumulativeDistribution := (cumulate 0 iValueMap.pairs).map Prod.snd
  valueArray := (cumulate 0 iValueMap.pairs).map Prod.fst
  length_cumulativeDistribution := by simp
  length_valueArray := by simp

/-- The value at a cumulative probability. -/
def getValue (a : CategoricalAttributeLite T K) (iCumulativeProbability : K) : Except Fault T :=
  let idx := a.cumulativeDistribution.findIdx fun c => decide (iCumulativeProbability ≤ c)
  if idx < a.size then vectorAt a.valueArray idx
  else .error .indexOutOfRange

/-- Whether a value belongs to the table. -/
def checkValue [DecidableEq T] (a : CategoricalAttributeLite T K) (iValue : T) : Bool :=
  a.valueArray.any fun value => decide (value = iValue)

variable [IsStrictOrderedRing K]

/-- A table with one value returns it at every probability up to its mass. -/
lemma getValue_single [LinearOrder T] (x : T) {u : K} (hu : u ≤ 1) :
    (init (OMap.ofPairs [(x, (1 : K))])).getValue u = .ok x := by
  have hcum : cumulate 0 (OMap.ofPairs [(x, (1 : K))]).pairs = [(x, 0 + 1)] := by
    rw [OMap.ofPairs_pairs (by simp)]
    simp [cumulate]
  simp [getValue, init, hcum, hu, vectorAt]

end CategoricalAttributeLite

end Trademgen
