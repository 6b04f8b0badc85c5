import Trademgen.DemandManager
import Trademgen.Lib.Faulting

/-!
The dates of a demand row.

The end of the range is moved by one day where it is stored, and the loop over the range ends when
its iterator is equal to that end: it meets every day of the range, and never ends when it starts
after it.
-/

set_option linter.unusedSectionVars false

namespace Trademgen

open Faulting

variable {K G Q : Type} [Field K] [LinearOrder K] [FloorRing K] [Libm K] [RandomGeneration K G]
  [EventQueue K Q]

namespace DemandStruct

/-- The day of the week of a date is active. -/
def isActive (d : DemandStruct K) (x : Date) : Bool := d.dow.getStandardDayOfWeek (dayOfWeek x)

/-- The key of the stream of a date. -/
def keyAt (d : DemandStruct K) (x : Date) : DemandStreamKey :=
  ⟨d.origin, d.destination, x, d.prefCabin⟩

/-- The active dates among the `n` days from a date on. -/
def activeDates (d : DemandStruct K) (x : Date) : ℕ → List Date
  | 0 => []
  | n + 1 => if d.isActive x then x :: activeDates d (x + 1) n else activeDates d (x + 1) n

variable {d : DemandStruct K}

lemma mem_activeDates {x y : ℤ} {n : ℕ} :
    y ∈ d.activeDates x n ↔ x ≤ y ∧ y < x + n ∧ d.isActive y = true := by
  induction n generalizing x with
  | zero =>
    simp only [activeDates, List.not_mem_nil, false_iff]
    omega
  | succ n ih =>
    have hrest : y ∈ d.activeDates (x + 1) n ↔ x + 1 ≤ y ∧ y < x + 1 + n ∧ d.isActive y = true := ih
    rw [activeDates]
    push_cast
    by_cases hx : d.isActive x = true
    · rw [if_pos hx, List.mem_cons, hrest]
      refine ⟨?_, ?_⟩
      · rintro (rfl | ⟨h0, h1, h2⟩)
        · exact ⟨le_rfl, by omega, hx⟩
        · exact ⟨by omega, by omega, h2⟩
      · rintro ⟨h0, h1, h2⟩
        rcases h0.eq_or_lt with rfl | h0
        · exact Or.inl rfl
        · exact Or.inr ⟨by omega, by omega, h2⟩
    · rw [if_neg hx, hrest]
      refine ⟨?_, ?_⟩
      · rintro ⟨h0, h1, h2⟩
        exact ⟨by omega, by omega, h2⟩
      · rintro ⟨h0, h1, h2⟩
        have hne : x ≠ y := by
          rintro rfl
          exact hx h2
        exact ⟨by omega, by omega, h2⟩

lemma activeDates_pairwise (x : ℤ) (n : ℕ) : (d.activeDates x n).Pairwise (· < ·) := by
  induction n generalizing x with
  | zero => exact .nil
  | succ n ih =>
    rw [activeDates]
    split_ifs
    · refine List.pairwise_cons.mpr ⟨fun y hy => ?_, ih (x + 1)⟩
      exact Int.lt_of_add_one_le (mem_activeDates.mp hy).1
    · exact ih (x + 1)

end DemandStruct

namespace DemandManager

/-- The dates that had a stream created, and its status added. -/
structure Created (d : DemandStruct K) (dates : List Date) (w w' : World K G Q) : Prop where
  streams : w'.demandStreamList = w.demandStreamList ++ dates.map d.keyAt
  status : w'.expectedTotals = w.expectedTotals ++ dates.map fun _ => d.demandMean

variable {d : DemandStruct K}

lemma createForDate_inactive {x : Date} (h : d.isActive x = false) (w : World K G Q) :
    createForDate d x w = .ok ⟨⟩ w := by
  unfold DemandStruct.isActive at h
  simp only [createForDate, h]
  rfl

lemma createForDate_active {x : Date} (h : d.isActive x = true) (w : World K G Q) :
    ∃ w', createForDate d x w = .ok ⟨⟩ w' ∧ Created d [x] w w' := by
  unfold DemandStruct.isActive at h
  simp only [createForDate, h, if_true]
  exact ⟨_, rfl, rfl, rfl⟩

/-- **The loop** over the dates from one to the end creates their streams. -/
lemma iterateDates_ok (n : ℕ) : ∀ (x : ℤ) (w : World K G Q), x + n = d.dateRange.end_ →
    ∃ w', iterateDates d (n + 1) x w = .ok ⟨⟩ w' ∧ Created d (d.activeDates x n) w w' := by
  induction n with
  | zero =>
    intro x w hx
    have hend : ¬ x ≠ d.dateRange.end_ := by
      rw [not_not, ← hx]
      simp
    refine ⟨w, ?_, by simp [DemandStruct.activeDates], by simp [DemandStruct.activeDates]⟩
    rw [iterateDates, if_neg hend]
    rfl
  | succ n ih =>
    intro x w hx
    have hend : x ≠ d.dateRange.end_ := by
      rw [← hx]
      push_cast
      omega
    have hx' : x + 1 + n = d.dateRange.end_ := by
      rw [← hx]
      push_cast
      ring
    rw [iterateDates, if_pos hend, DemandStruct.activeDates]
    by_cases h : d.isActive x = true
    · obtain ⟨w₁, hw₁, hs, ht⟩ := createForDate_active h w
      obtain ⟨w', hw', hs', ht'⟩ := ih (x + 1) w₁ hx'
      refine ⟨w', (bind_ok hw₁).trans hw', ?_⟩
      rw [if_pos h]
      exact ⟨by rw [hs', hs, List.append_assoc]; rfl, by rw [ht', ht, List.append_assoc]; rfl⟩
    · obtain ⟨w', hw', hc⟩ := ih (x + 1) w hx'
      refine ⟨w', (bind_ok (createForDate_inactive (Bool.not_eq_true _ ▸ h) w)).trans hw', ?_⟩
      rwa [if_neg h]

lemma createForDate_stream {x : Date} {w w' : World K G Q} (h : createForDate d x w = .ok ⟨⟩ w') :
    (d.isActive x = true →
      (w'.demandStream (d.keyAt x)).demandCharacteristics = characteristicsOf d) ∧
    ∀ key, key ≠ d.keyAt x → w'.demandStream key = w.demandStream key := by
  by_cases hx : d.isActive x = true
  · unfold DemandStruct.isActive at hx
    simp only [createForDate, hx, if_true] at h
    cases h
    refine ⟨fun _ => ?_, fun key hkey => ?_⟩
    · simp only [updateStream, DemandStruct.keyAt, Function.update_self]
    · exact Function.update_of_ne hkey _ _
  · rw [createForDate_inactive (Bool.not_eq_true _ ▸ hx)] at h
    cases h
    exact ⟨fun hc => absurd hc hx, fun _ _ => rfl⟩

lemma keyAt_injective : Function.Injective d.keyAt := by
  intro x y h
  exact congrArg DemandStreamKey.preferredDepartureDate h

/-- The loop leaves alone the streams of the dates it does not meet any more. -/
lemma iterateDates_frame (n : ℕ) : ∀ (x y : ℤ) (w w' : World K G Q), y < x →
    iterateDates d n x w = .ok ⟨⟩ w' →
    w'.demandStream (d.keyAt y) = w.demandStream (d.keyAt y) := by
  induction n with
  | zero =>
    intro x y w w' _ h
    cases h
  | succ n ih =>
    intro x y w w' hy h
    rw [iterateDates] at h
    split_ifs at h with hend
    · obtain ⟨_, w₁, hw₁, hrest⟩ := bind_eq_ok.mp h
      rw [ih (x + 1) y w₁ w' (hy.trans (Int.lt_succ x)) hrest]
      exact (createForDate_stream hw₁).2 _ (keyAt_injective.ne hy.ne)
    · cases h
      rfl

/-- **The streams** of the active dates have the characteristics of the row. -/
lemma iterateDates_characteristics (n : ℕ) : ∀ (x y : ℤ) (w w' : World K G Q),
    iterateDates d n x w = .ok ⟨⟩ w' → x ≤ y → y < d.dateRange.end_ → d.isActive y = true →
    (w'.demandStream (d.keyAt y)).demandCharacteristics = characteristicsOf d := by
  induction n with
  | zero =>
    intro x y w w' h
    cases h
  | succ n ih =>
    intro x y w w' h hxy hy hactive
    rw [iterateDates, if_pos (hxy.trans_lt hy).ne] at h
    obtain ⟨_, w₁, hw₁, hrest⟩ := bind_eq_ok.mp h
    rcases hxy.eq_or_lt with rfl | hlt
    · rw [iterateDates_frame n _ _ w₁ w' (Int.lt_succ x) hrest]
      exact (createForDate_stream hw₁).1 hactive
    · exact ih (x + 1) y w₁ w' hrest hlt hy hactive

/-- A loop that starts after the end of the range does not end. -/
lemma iterateDates_diverges (n : ℕ) : ∀ (x : ℤ) (w w' : World K G Q), d.dateRange.end_ < x →
    iterateDates d n x w ≠ .ok ⟨⟩ w' := by
  induction n with
  | zero =>
    intro x w w' _ h
    cases h
  | succ n ih =>
    intro x w w' hx h
    rw [iterateDates, if_pos hx.ne'] at h
    obtain ⟨_, w₁, -, hrest⟩ := bind_eq_ok.mp h
    exact ih (x + 1) w₁ w' (hx.trans (Int.lt_succ x)) hrest

/-- **The dates of a row**: the streams of the active dates of the range, one each and in order,
are created by a loop that ends, exactly when the range is not reversed by more than one day. -/
theorem createDemandCharacteristics_iff {d d' : DemandStruct K} {endDate : Date}
    (hdate : d.getDate = .ok endDate) (hd : d.storePrefDepDateRangeEnd = .ok d')
    (w : World K G Q) :
    (∃ (n : ℕ) (w' : World K G Q) (dates : List Date),
      createDemandCharacteristics n d' w = .ok ⟨⟩ w' ∧
      dates.Pairwise (· < ·) ∧
      (∀ x, x ∈ dates ↔ d.prefDepDateStart ≤ x ∧ x ≤ endDate ∧
        d.dow.getStandardDayOfWeek (dayOfWeek x) = true) ∧
      w'.demandStreamList = w.demandStreamList
        ++ dates.map (fun x => ⟨d.origin, d.destination, x, d.prefCabin⟩) ∧
      w'.expectedTotals = w.expectedTotals ++ dates.map fun _ => d.demandMean) ↔
    d.prefDepDateStart ≤ endDate + 1 := by
  have hd' : d' = { d with
      prefDepDateEnd := endDate + 1
      dateRange := ⟨d.prefDepDateStart, endDate + 1⟩
      itSeconds := 0 } := by
    unfold DemandStruct.storePrefDepDateRangeEnd at hd
    rw [hdate] at hd
    cases hd
    rfl
  subst hd'
  refine ⟨?_, fun hle => ?_⟩
  · rintro ⟨n, w', -, hrun, -⟩
    by_contra hlt
    exact iterateDates_diverges n _ w w' (not_le.mp hlt) hrun
  · obtain ⟨n, hn⟩ := Int.le.dest hle
    obtain ⟨w', hrun, hs, ht⟩ := iterateDates_ok (d := { d with
      prefDepDateEnd := endDate + 1
      dateRange := ⟨d.prefDepDateStart, endDate + 1⟩
      itSeconds := 0 }) n d.prefDepDateStart w hn
    refine ⟨n + 1, w', _, hrun, DemandStruct.activeDates_pairwise _ _, fun x => ?_, hs, ht⟩
    rw [DemandStruct.mem_activeDates, hn, Int.lt_add_one_iff]
    rfl

end DemandManager

section Real

open DemandManager

/-- A row that is active every day, whose range starts on the tenth of February 2010 and whose end
field holds a day of that month. -/
noncomputable def rangeSample (day : ℕ) : DemandStruct ℝ :=
  { DemandStruct.make ⟨0, 0⟩ ⟨List.replicate 7 true⟩ "Y" with
    prefDepDateStart := dayNumber 2010 2 10
    itYear := 2010
    itMonth := 2
    itDay := day }

lemma rangeSample_getDate (day : ℕ) (h : day ≤ 28) :
    (rangeSample day).getDate = .ok (dayNumber 2010 2 day) := by
  have hfebruary : endOfMonthDay 2010 2 = 28 := by decide
  have hmonth : (rangeSample day).itDay
      ≤ endOfMonthDay (rangeSample day).itYear (rangeSample day).itMonth := hfebruary.symm ▸ h
  unfold DemandStruct.getDate
  rw [if_pos hmonth]
  rfl

lemma rangeSample_store (day : ℕ) (h : day ≤ 28) :
    ∃ d', (rangeSample day).storePrefDepDateRangeEnd = .ok d' ∧
      d'.dateRange = ⟨dayNumber 2010 2 10, dayNumber 2010 2 day + 1⟩ := by
  unfold DemandStruct.storePrefDepDateRangeEnd
  rw [rangeSample_getDate day h]
  exact ⟨_, rfl, rfl⟩

/-- A world without streams. -/
noncomputable def emptySample : World ℝ (Tape ℝ) (SortedQueue ℝ) :=
  ⟨[], fun key => .make key, .empty, 0, [], Tape.const 0 1 0 Tape.zero_mem Tape.one_pos, []⟩

theorem createDemandCharacteristics_iff_sample :
    ∃ (d' : DemandStruct ℝ) (n : ℕ) (w' : World ℝ (Tape ℝ) (SortedQueue ℝ)) (dates : List Date),
      (rangeSample 12).storePrefDepDateRangeEnd = .ok d' ∧
      createDemandCharacteristics n d' emptySample = .ok ⟨⟩ w' ∧
      w'.demandStreamList = dates.map (fun x => ⟨"", "", x, "Y"⟩) := by
  obtain ⟨d', hd, -⟩ := rangeSample_store 12 (by norm_num)
  obtain ⟨n, w', dates, hrun, -, -, hstreams, -⟩ := (createDemandCharacteristics_iff
    (rangeSample_getDate 12 (by norm_num)) hd emptySample).mpr (by decide)
  exact ⟨d', n, w', dates, hd, hrun, hstreams⟩

/-- From the tenth to the eighth of February the loop does not end. -/
theorem reversed_diverges :
    ∃ d', (rangeSample 8).storePrefDepDateRangeEnd = .ok d' ∧
      ∀ (n : ℕ) (w' : World ℝ (Tape ℝ) (SortedQueue ℝ)),
        createDemandCharacteristics n d' emptySample ≠ .ok ⟨⟩ w' := by
  obtain ⟨d', hd, hrange⟩ := rangeSample_store 8 (by norm_num)
  refine ⟨d', hd, fun n w' => ?_⟩
  unfold createDemandCharacteristics
  refine iterateDates_diverges n _ emptySample w' ?_
  rw [hrange]
  decide

end Real

end Trademgen
