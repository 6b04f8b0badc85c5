import Trademgen.Attributes

/-!
The lookup of a categorical attribute: the values of positive mass lie one after the other on
the line, in the order of their keys, each on an interval as long as its mass.
-/

namespace Trademgen.CategoricalAttributeLite

open OrderedMap

variable {T K : Type} [Field K] [LinearOrder K]

/-- The entries of positive mass. -/
def entries (l : List (T × K)) : List (T × K) := l.filter fun e => decide (0 < e.2)

/-- The mass of the first `k` entries of positive mass. -/
def massUpTo (l : List (T × K)) (k : ℕ) : K := (((entries l).take k).map Prod.snd).sum

lemma entries_cons_of_pos {e : T × K} {l : List (T × K)} (h : 0 < e.2) :
    entries (e :: l) = e :: entries l :=
  List.filter_cons_of_pos (by simpa using h)

lemma entries_cons_of_not_pos {e : T × K} {l : List (T × K)} (h : ¬ 0 < e.2) :
    entries (e :: l) = entries l :=
  List.filter_cons_of_neg (by simpa using h)

lemma mem_entries {l : List (T × K)} {e : T × K} : e ∈ entries l ↔ e ∈ l ∧ 0 < e.2 := by
  simp [entries]

@[simp] lemma massUpTo_zero (l : List (T × K)) : massUpTo l 0 = 0 := by
  simp [massUpTo]

lemma massUpTo_succ {l : List (T × K)} {k : ℕ} (h : k < (entries l).length) :
    massUpTo l (k + 1) = massUpTo l k + (entries l)[k].2 := by
  rw [massUpTo, massUpTo, List.take_add_one, List.map_append, List.sum_append,
    List.getElem?_eq_getElem h]
  simp

lemma massUpTo_cons_of_pos {e : T × K} {l : List (T × K)} (h : 0 < e.2) (k : ℕ) :
    massUpTo (e :: l) (k + 1) = e.2 + massUpTo l k := by
  simp [massUpTo, entries_cons_of_pos h]

lemma massUpTo_cons_of_not_pos {e : T × K} {l : List (T × K)} (h : ¬ 0 < e.2) (k : ℕ) :
    massUpTo (e :: l) k = massUpTo l k := by
  simp [massUpTo, entries_cons_of_not_pos h]

/-- What is accumulated: the entries of positive mass, each with the mass up to it. -/
lemma cumulate_getElem? (l : List (T × K)) : ∀ (x : K) (k : ℕ),
    (cumulate x l)[k]? = ((entries l)[k]?).map fun e => (e.1, x + massUpTo l (k + 1)) := by
  induction l with
  | nil => intro x k; rfl
  | cons e r ih =>
    obtain ⟨value, mass⟩ := e
    intro x k
    by_cases hm : 0 < mass
    · rw [entries_cons_of_pos hm, cumulate, if_pos hm, massUpTo_cons_of_pos hm]
      cases k with
      | zero => simp
      | succ k =>
        rw [List.getElem?_cons_succ, List.getElem?_cons_succ, ih]
        simp [add_assoc]
    · rw [entries_cons_of_not_pos hm, cumulate, if_neg hm, massUpTo_cons_of_not_pos hm, ih]

lemma length_cumulate (l : List (T × K)) : ∀ x : K, (cumulate x l).length = (entries l).length := by
  induction l with
  | nil => intro x; rfl
  | cons e r ih =>
    obtain ⟨value, mass⟩ := e
    intro x
    by_cases hm : 0 < mass
    · rw [entries_cons_of_pos hm, cumulate, if_pos hm, List.length_cons, List.length_cons, ih]
    · rw [entries_cons_of_not_pos hm, cumulate, if_neg hm, ih]

lemma exists_massUpTo_interval {l : List (T × K)} {p : K} (h0 : 0 < p) :
    ∀ n ≤ (entries l).length, p ≤ massUpTo l n →
      ∃ k < n, massUpTo l k < p ∧ p ≤ massUpTo l (k + 1)
  | 0, _, hp => by
    rw [massUpTo_zero] at hp
    exact absurd h0 (not_lt.mpr hp)
  | n + 1, hn, hp => by
    rcases lt_or_ge (massUpTo l n) p with h | h
    · exact ⟨n, Nat.lt_succ_self n, h, hp⟩
    · obtain ⟨k, hk, hkp⟩ := exists_massUpTo_interval h0 n (by omega) h
      exact ⟨k, by omega, hkp⟩

/-- The last running sum is that of all masses, when none is negative. -/
lemma massUpTo_entries {l : List (T × K)} (h : ∀ e ∈ l, 0 ≤ e.2) :
    massUpTo l (entries l).length = (l.map Prod.snd).sum := by
  induction l with
  | nil => rfl
  | cons e l ih =>
    have hl := ih fun x hx => h x (List.mem_cons_of_mem e hx)
    rw [List.map_cons, List.sum_cons]
    by_cases he : 0 < e.2
    · rw [entries_cons_of_pos he, List.length_cons, massUpTo_cons_of_pos he, hl]
    · have he0 : e.2 = 0 := le_antisymm (not_lt.mp he) (h e List.mem_cons_self)
      rw [entries_cons_of_not_pos he, massUpTo_cons_of_not_pos he, hl, he0, zero_add]

section Table

variable [LinearOrder T] (m : OMap T K)

lemma size_init : (init m).size = (entries m.pairs).length :=
  length_cumulate m.pairs 0

lemma valueArray_init {k : ℕ} (hk : k < (entries m.pairs).length) :
    (init m).valueArray[k]? = some (entries m.pairs)[k].1 := by
  simp [init, cumulate_getElem?, hk]

lemma cumulativeDistribution_init {k : ℕ} (hk : k < (entries m.pairs).length) :
    (init m).cumulativeDistribution[k]? = some (massUpTo m.pairs (k + 1)) := by
  simp [init, cumulate_getElem?, hk]

/-- The values are the keys of the entries of positive mass. -/
lemma mem_valueArray_init {x : T} :
    x ∈ (init m).valueArray ↔ ∃ k, ∃ hk : k < (entries m.pairs).length,
      (entries m.pairs)[k].1 = x := by
  rw [List.mem_iff_getElem?]
  refine exists_congr fun k => ?_
  by_cases hk : k < (entries m.pairs).length
  · simp [valueArray_init m hk, hk]
  · rw [List.getElem?_eq_none (by rw [(init m).length_valueArray, size_init]; omega)]
    simp [hk]

/-- Two entries of one key are the same entry. -/
lemma entries_fst_inj {i j : ℕ} (hi : i < (entries m.pairs).length)
    (hj : j < (entries m.pairs).length)
    (h : (entries m.pairs)[i].1 = (entries m.pairs)[j].1) : i = j := by
  have hnd : (entries m.pairs).Nodup := (List.Nodup.of_map Prod.fst
    (m.sorted.imp fun h => h.ne)).filter _
  have hmem {k : ℕ} (hk : k < (entries m.pairs).length) : (entries m.pairs)[k] ∈ m.pairs :=
    (mem_entries.mp (List.getElem_mem hk)).1
  exact hnd.getElem_inj_iff.mp (m.eq_of_fst_eq (hmem hi) (hmem hj) h)

/-- Past the last running sum the lookup fails. -/
lemma getValue_init_error {p : K}
    (h : ∀ k < (entries m.pairs).length, massUpTo m.pairs (k + 1) < p) :
    (init m).getValue p = .error .indexOutOfRange := by
  have hlen : (init m).cumulativeDistribution.length = (entries m.pairs).length := by
    rw [(init m).length_cumulativeDistribution, size_init]
  have hidx : ¬ (init m).cumulativeDistribution.findIdx (fun c => decide (p ≤ c))
      < (init m).size := by
    intro hlt
    rw [size_init, ← hlen] at hlt
    have hle := List.findIdx_getElem (w := hlt)
    have hc := cumulativeDistribution_init m (hlen ▸ hlt)
    rw [List.getElem?_eq_getElem hlt, Option.some_inj] at hc
    rw [hc] at hle
    exact absurd (of_decide_eq_true hle) (not_le.mpr (h _ (hlen ▸ hlt)))
  unfold getValue
  exact if_neg hidx

end Table

variable [IsStrictOrderedRing K]

lemma massUpTo_lt_succ {l : List (T × K)} {k : ℕ} (h : k < (entries l).length) :
    massUpTo l k < massUpTo l (k + 1) := by
  rw [massUpTo_succ h]
  have := (mem_entries.mp (List.getElem_mem h)).2
  linarith

lemma massUpTo_mono {l : List (T × K)} {i j : ℕ} (hij : i ≤ j) (hj : j ≤ (entries l).length) :
    massUpTo l i ≤ massUpTo l j := by
  induction j, hij using Nat.le_induction with
  | base => exact le_rfl
  | succ j hij ih => exact (ih (by omega)).trans (massUpTo_lt_succ (by omega)).le

/-- The only interval in which a number can lie. -/
lemma massUpTo_interval_unique {l : List (T × K)} {i j : ℕ} {p : K}
    (hi : i < (entries l).length) (hj : j < (entries l).length)
    (hpi : massUpTo l i < p ∧ p ≤ massUpTo l (i + 1))
    (hpj : massUpTo l j < p ∧ p ≤ massUpTo l (j + 1)) : i = j := by
  rcases Nat.lt_trichotomy i j with h | h | h
  · have := massUpTo_mono (l := l) (show i + 1 ≤ j by omega) hj.le
    exact absurd (hpi.2.trans this) (not_le.mpr hpj.1)
  · exact h
  · have := massUpTo_mono (l := l) (show j + 1 ≤ i by omega) hi.le
    exact absurd (hpj.2.trans this) (not_le.mpr hpi.1)

section Lookup

variable [LinearOrder T] (m : OMap T K)

/-- The scan of the running sums stops at the first that is not below the probability. -/
lemma getValue_init_eq {p : K} {k : ℕ} (hk : k < (entries m.pairs).length)
    (hle : p ≤ massUpTo m.pairs (k + 1)) (hlt : k = 0 ∨ massUpTo m.pairs k < p) :
    (init m).getValue p = .ok (entries m.pairs)[k].1 := by
  have hlen : (init m).cumulativeDistribution.length = (entries m.pairs).length := by
    rw [(init m).length_cumulativeDistribution, size_init]
  have hc {j : ℕ} (hj : j < (init m).cumulativeDistribution.length) :
      (init m).cumulativeDistribution[j] = massUpTo m.pairs (j + 1) := by
    have := cumulativeDistribution_init m (hlen ▸ hj)
    rwa [List.getElem?_eq_getElem hj, Option.some_inj] at this
  have hidx : (init m).cumulativeDistribution.findIdx (fun c => decide (p ≤ c)) = k := by
    refine (List.findIdx_eq (by omega)).mpr ⟨?_, fun j hj => ?_⟩
    · rw [hc]
      exact decide_eq_true hle
    · rw [hc]
      have hjk := massUpTo_mono (l := m.pairs) (show j + 1 ≤ k by omega) hk.le
      exact decide_eq_false (not_le.mpr (hjk.trans_lt (hlt.resolve_left (by omega))))
  unfold getValue
  rw [hidx, size_init]
  simp [hk, vectorAt, valueArray_init m hk]

/-- The lookup succeeds up to the last running sum. -/
lemma exists_getValue_init {p : K} (hn : (entries m.pairs).length ≠ 0)
    (hp : p ≤ massUpTo m.pairs (entries m.pairs).length) :
    ∃ k, ∃ hk : k < (entries m.pairs).length,
      (init m).getValue p = .ok (entries m.pairs)[k].1 := by
  rcases le_or_gt p 0 with h0 | h0
  · have h1 : 0 ≤ massUpTo m.pairs 1 := by
      rw [← massUpTo_zero m.pairs]
      exact massUpTo_mono (by omega) (by omega)
    exact ⟨0, by omega, getValue_init_eq m (by omega) (h0.trans h1) (Or.inl rfl)⟩
  · obtain ⟨k, hk, hlt, hle⟩ := exists_massUpTo_interval h0 _ le_rfl hp
    exact ⟨k, hk, getValue_init_eq m hk hle (Or.inr hlt)⟩

lemma getValue_init_error_iff (p : K) : (init m).getValue p = .error .indexOutOfRange ↔
    (entries m.pairs).length = 0 ∨ massUpTo m.pairs (entries m.pairs).length < p := by
  refine ⟨fun h => ?_, fun h => ?_⟩
  · by_contra hc
    obtain ⟨hn, hp⟩ := not_or.mp hc
    obtain ⟨k, hk, hok⟩ := exists_getValue_init m hn (not_lt.mp hp)
    rw [hok] at h
    cases h
  · refine getValue_init_error m fun k hk => ?_
    exact (massUpTo_mono (by omega) le_rfl).trans_lt (h.resolve_left (by omega))

/-- A value drawn is a key of positive mass. -/
lemma exists_of_getValue_init {p : K} {x : T} (h : (init m).getValue p = .ok x) :
    ∃ k, ∃ hk : k < (entries m.pairs).length, (entries m.pairs)[k].1 = x := by
  by_cases hc : (entries m.pairs).length = 0 ∨ massUpTo m.pairs (entries m.pairs).length < p
  · rw [(getValue_init_error_iff m p).mpr hc] at h
    cases h
  · obtain ⟨hn, hp⟩ := not_or.mp hc
    obtain ⟨k, hk, hok⟩ := exists_getValue_init m hn (not_lt.mp hp)
    rw [hok] at h
    exact ⟨k, hk, Except.ok.inj h⟩

/-- **Every variate** draws a value of positive mass when the masses sum to one at least, and only
then. -/
theorem getValue_every_iff (h0 : ∀ e ∈ m.pairs, 0 ≤ e.2) :
    (∀ u, 0 ≤ u → u < 1 → ∃ x mass, (init m).getValue u = .ok x ∧ (x, mass) ∈ m.pairs ∧ 0 < mass) ↔
      1 ≤ (m.pairs.map Prod.snd).sum := by
  have htotal := massUpTo_entries h0
  refine ⟨fun h => ?_, fun h u hu hu1 => ?_⟩
  -- Half-way between the sum and one there is a variate past the sum.
  · by_contra hlt
    have hnonneg : 0 ≤ (m.pairs.map Prod.snd).sum := by
      refine List.sum_nonneg fun y hy => ?_
      obtain ⟨e, he, rfl⟩ := List.mem_map.mp hy
      exact h0 e he
    obtain ⟨x, mass, hx, -, -⟩ := h (((m.pairs.map Prod.snd).sum + 1) / 2) (by linarith)
      (by linarith)
    rw [(getValue_init_error_iff m _).mpr (Or.inr (by rw [htotal]; linarith))] at hx
    cases hx
  · have hn : (entries m.pairs).length ≠ 0 := by
      intro hn
      rw [hn, massUpTo_zero] at htotal
      linarith
    obtain ⟨k, hk, hok⟩ := exists_getValue_init m hn (htotal ▸ hu1.le.trans h)
    obtain ⟨hmem, hpos⟩ := mem_entries.mp (List.getElem_mem hk)
    exact ⟨_, _, hok, hmem, hpos⟩

/-- The positive numbers at which a value is drawn. -/
lemma drawn_interval {k : ℕ} (hk : k < (entries m.pairs).length) :
    {p | 0 < p ∧ (init m).getValue p = .ok (entries m.pairs)[k].1}
      = Set.Ioc (massUpTo m.pairs k) (massUpTo m.pairs (k + 1)) := by
  ext p
  refine ⟨fun ⟨h0, h⟩ => ?_, fun ⟨hlt, hle⟩ => ⟨?_, getValue_init_eq m hk hle (Or.inr hlt)⟩⟩
  · have hp : p ≤ massUpTo m.pairs (entries m.pairs).length := by
      refine not_lt.mp fun hc => ?_
      rw [(getValue_init_error_iff m p).mpr (Or.inr hc)] at h
      cases h
    obtain ⟨j, hj, hlt, hle⟩ := exists_massUpTo_interval h0 _ le_rfl hp
    rw [getValue_init_eq m hj hle (Or.inr hlt)] at h
    obtain rfl := entries_fst_inj m hj hk (Except.ok.inj h)
    exact ⟨hlt, hle⟩
  · calc (0 : K) = massUpTo m.pairs 0 := (massUpTo_zero _).symm
      _ ≤ massUpTo m.pairs k := massUpTo_mono (Nat.zero_le k) hk.le
      _ < p := hlt

/-- The values that belong to the table are those that some number draws. -/
lemma checkValue_init_iff (x : T) :
    (init m).checkValue x = true ↔ ∃ p, (init m).getValue p = .ok x := by
  have hmem : (init m).checkValue x = true ↔ x ∈ (init m).valueArray := by
    simp [checkValue]
  rw [hmem, mem_valueArray_init]
  refine ⟨fun ⟨k, hk, hx⟩ => ?_, fun ⟨p, hp⟩ => exists_of_getValue_init m hp⟩
  refine ⟨massUpTo m.pairs (k + 1), ?_⟩
  rw [getValue_init_eq m hk le_rfl (Or.inr (massUpTo_lt_succ hk)), hx]

/-- **Sampling.** A number past the total mass is refused; every other one draws the value whose
interval holds it, the intervals being as long as the masses, one after the other from `0`. -/
theorem getValue_partition (m : OMap T K) :
    let e := entries m.pairs
    let C := massUpTo m.pairs
    (∀ p, (init m).getValue p = .error .indexOutOfRange ↔ e.length = 0 ∨ C e.length < p) ∧
    (∀ p f, (init m).getValue p = .error f → f = .indexOutOfRange) ∧
    (∀ p, ∀ h : 0 < e.length, p ≤ 0 → (init m).getValue p = .ok e[0].1) ∧
    (∀ p, 0 < p → p ≤ C e.length →
      ∃! k, ∃ hk : k < e.length, C k < p ∧ p ≤ C (k + 1) ∧ (init m).getValue p = .ok e[k].1) ∧
    (∀ p k, ∀ hk : k < e.length, C k < p → p ≤ C (k + 1) → (init m).getValue p = .ok e[k].1) ∧
    (∀ k, ∀ hk : k < e.length,
      {p | 0 < p ∧ (init m).getValue p = .ok e[k].1} = Set.Ioc (C k) (C (k + 1)) ∧
      C (k + 1) - C k = e[k].2) ∧
    (∀ x mass, (x, mass) ∈ m.pairs → mass ≤ 0 → ∀ p, (init m).getValue p ≠ .ok x) ∧
    (∀ x, (init m).checkValue x = true ↔ ∃ p, (init m).getValue p = .ok x) := by
  intro e C
  refine ⟨getValue_init_error_iff m, fun p f hf => ?_, fun p h0 hp => ?_, fun p h0 hp => ?_,
    fun p k hk hlt hle => getValue_init_eq m hk hle (Or.inr hlt), fun k hk => ⟨?_, ?_⟩,
    fun x mass hx hmass p hp => ?_, checkValue_init_iff m⟩
  · by_cases hc : e.length = 0 ∨ C e.length < p
    · rw [(getValue_init_error_iff m p).mpr hc] at hf
      exact (Except.error.inj hf).symm
    · obtain ⟨hn, hp⟩ := not_or.mp hc
      obtain ⟨k, hk, hok⟩ := exists_getValue_init m hn (not_lt.mp hp)
      rw [hok] at hf
      cases hf
  · have h1 : 0 ≤ C 1 := by
      rw [← massUpTo_zero m.pairs]
      exact massUpTo_mono (by omega) h0
    exact getValue_init_eq m h0 (hp.trans h1) (Or.inl rfl)
  · obtain ⟨k, hk, hlt, hle⟩ := exists_massUpTo_interval h0 _ le_rfl hp
    refine ⟨k, ⟨hk, hlt, hle, getValue_init_eq m hk hle (Or.inr hlt)⟩, ?_⟩
    rintro j ⟨hj, hjlt, hjle, -⟩
    exact massUpTo_interval_unique hj hk ⟨hjlt, hjle⟩ ⟨hlt, hle⟩
  · exact drawn_interval m hk
  · exact sub_eq_of_eq_add' (massUpTo_succ hk)
  -- A key of no positive mass is the key of no other entry.
  · obtain ⟨k, hk, hkx⟩ := exists_of_getValue_init m hp
    obtain ⟨hmem, hpos⟩ := mem_entries.mp (List.getElem_mem hk)
    have heq := m.eq_of_fst_eq hmem hx hkx
    rw [heq] at hpos
    exact absurd hpos (not_lt.mpr hmass)

/-- The theorem for the trip types of a sample row, one of which has no mass. -/
theorem getValue_partition_sample :
    (init (OMap.ofPairs [("RI", (1 / 4 : ℚ)), ("RO", 0), ("OW", 1 / 2)])).getValue (1 / 2)
      = .ok "OW" ∧
    ∀ x, (init (OMap.ofPairs [("RI", (1 / 4 : ℚ)), ("RO", 0), ("OW", 1 / 2)])).checkValue x = true ↔
      ∃ p, (init (OMap.ofPairs [("RI", (1 / 4 : ℚ)), ("RO", 0), ("OW", 1 / 2)])).getValue p
        = .ok x :=
  ⟨by decide +kernel, (getValue_partition _).2.2.2.2.2.2.2⟩

end Lookup

end Trademgen.CategoricalAttributeLite
