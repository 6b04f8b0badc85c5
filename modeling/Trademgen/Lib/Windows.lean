import Trademgen.Lib.Sampling

/-!
Points counted in windows.

The windows of a row end one after the other, and each is to count so many points. Points that come
in order land in the first window that is not over; the counts are met when each of them lands in a
window that has not counted enough and the windows before it have.
-/

set_option linter.unusedSectionVars false

namespace Sampling

open MeasureTheory Set

section Windows

variable {α : Type} [LinearOrder α] {y : α} {ws ws' : List (α × ℕ)} {ys : List α} {t : ℕ → α}
  {n : ℕ → ℕ}

/-- A point lands in the first of the windows that ends after it. It is one of those that the window
counts, and the windows before are over. -/
def land (y : α) : List (α × ℕ) → Option (List (α × ℕ))
  | [] => none
  | (t, n) :: ws =>
    if y < t then
      match n with
      | 0 => none
      | n + 1 => some ((t, n) :: ws)
    else if n = 0 then land y ws
    else none

lemma land_zero (y t : α) (ws : List (α × ℕ)) :
    land y ((t, 0) :: ws) = if y < t then none else land y ws := by
  rw [land, if_pos rfl]

lemma land_succ (y t : α) (n : ℕ) (ws : List (α × ℕ)) :
    land y ((t, n + 1) :: ws) = if y < t then some ((t, n) :: ws) else none := by
  rw [land, if_neg n.succ_ne_zero]

/-- The points counted by all the windows. -/
def total (ws : List (α × ℕ)) : ℕ := (ws.map Prod.snd).sum

lemma land_spec (h : land y ws = some ws') :
    total ws = total ws' + 1 ∧ ∀ w' ∈ ws', ∃ w ∈ ws, w.1 = w'.1 := by
  induction ws with
  | nil => cases h
  | cons w ws ih =>
    obtain ⟨t, n⟩ := w
    unfold land at h
    split_ifs at h with hy hn
    · cases n with
      | zero => cases h
      | succ n =>
        cases h
        refine ⟨by simp only [total, List.map_cons, List.sum_cons]; omega, fun w' hw' => ?_⟩
        rcases List.mem_cons.mp hw' with rfl | hw'
        · exact ⟨_, List.mem_cons_self, rfl⟩
        · exact ⟨w', List.mem_cons_of_mem _ hw', rfl⟩
    · subst hn
      obtain ⟨htotal, hends⟩ := ih h
      refine ⟨by simpa [total] using htotal, fun w' hw' => ?_⟩
      obtain ⟨w, hw, heq⟩ := hends w' hw'
      exact ⟨w, List.mem_cons_of_mem _ hw, heq⟩

/-- The points land in the windows one after the other, as many in each as it counts. -/
def Counts : List (α × ℕ) → List α → Prop
  | ws, [] => total ws = 0
  | ws, y :: ys => ∃ ws', land y ws = some ws' ∧ Counts ws' ys

lemma counts_nil : Counts [] ys ↔ ys = [] := by
  cases ys with
  | nil => simp [Counts, total]
  | cons y ys => simp [Counts, land]

/-- The first window counts the points before its end. -/
lemma counts_cons {t : α} {n : ℕ} : Counts ((t, n) :: ws) ys ↔
    (ys.takeWhile (· < t)).length = n ∧ Counts ws (ys.dropWhile (· < t)) := by
  induction ys generalizing n with
  | nil => simp [Counts, total, eq_comm]
  | cons y ys ih =>
    rw [Counts]
    rcases lt_or_ge y t with hy | hy
    · cases n with
      | zero => simp [land_zero, hy]
      | succ n => simp [land_succ, hy, ih]
    · cases n with
      | zero => simp [land_zero, not_lt.mpr hy, Counts]
      | succ n => simp [land_succ, not_lt.mpr hy]

lemma bounds_mono {m : ℕ} (ht : ∀ j < m, t j ≤ t (j + 1)) {i j : ℕ} (hij : i ≤ j) (hj : j ≤ m) :
    t i ≤ t j := by
  induction j, hij using Nat.le_induction with
  | base => exact le_rfl
  | succ j _ ih => exact (ih (by omega)).trans (ht j (by omega))

/-- The windows between so many bounds. -/
def windows (t : ℕ → α) (n : ℕ → ℕ) (i : ℕ) : ℕ → List (α × ℕ)
  | 0 => []
  | m + 1 => (t (i + 1), n i) :: windows t n (i + 1) m

lemma mem_windows {m i : ℕ} {w : α × ℕ} (hw : w ∈ windows t n i m) :
    ∃ j < i + m, w = (t (j + 1), n j) := by
  induction m generalizing i with
  | zero => cases hw
  | succ m ih =>
    rcases List.mem_cons.mp hw with rfl | hw
    · exact ⟨i, by omega, rfl⟩
    · obtain ⟨j, hj, rfl⟩ := ih hw
      exact ⟨j, by omega, rfl⟩

lemma windows_le {m : ℕ} (ht : ∀ j < m, t j ≤ t (j + 1)) : ∀ w ∈ windows t n 0 m, w.1 ≤ t m := by
  intro w hw
  obtain ⟨j, hj, rfl⟩ := mem_windows hw
  exact bounds_mono ht (by omega) le_rfl

lemma total_windows (t : ℕ → α) (n : ℕ → ℕ) (m : ℕ) :
    ∀ i, total (windows t n i m) = ∑ j ∈ Finset.range m, n (i + j) := by
  induction m with
  | zero => exact fun _ => rfl
  | succ m ih =>
    intro i
    have hrest := ih (i + 1)
    rw [Finset.sum_range_succ']
    simp only [Nat.add_right_comm i 1, Nat.add_assoc i _ 1] at hrest
    simp only [windows, total, List.map_cons, List.sum_cons, add_zero]
    rw [← hrest, add_comm]
    rfl

lemma takeWhile_lt {a : α} (h : ys.Pairwise (· ≤ ·)) :
    ys.takeWhile (· < a) = ys.filter (· < a) ∧ ys.dropWhile (· < a) = ys.filter (a ≤ ·) := by
  induction ys with
  | nil => simp
  | cons y ys ih =>
    obtain ⟨hy, hrest⟩ := List.pairwise_cons.mp h
    rcases lt_or_ge y a with hlt | hge
    · simp [hlt, not_le.mpr hlt, ih hrest]
    · have hall : ∀ y' ∈ ys, a ≤ y' := fun y' hy' => hge.trans (hy y' hy')
      have hself : ys.filter (a ≤ ·) = ys := List.filter_eq_self.mpr (by simpa using hall)
      have hnone : ys.filter (· < a) = [] := List.filter_eq_nil_iff.mpr (by simpa using hall)
      simp [hge, not_lt.mpr hge, hself, hnone]

/-- The points of a later window are among those that are left. -/
lemma countP_filter_le {a b c : α} (h : a ≤ b) (ys : List α) :
    (ys.filter (a ≤ ·)).countP (fun y => b ≤ y ∧ y < c)
      = ys.countP (fun y => b ≤ y ∧ y < c) := by
  rw [List.countP_filter]
  refine List.countP_congr fun y _ => ?_
  simp only [Bool.and_eq_true, decide_eq_true_eq]
  exact ⟨fun hy => hy.1, fun hy => ⟨hy, h.trans hy.1⟩⟩

/-- Points that rise, counted in windows one after the other. -/
lemma counts_windows (n : ℕ → ℕ) (m : ℕ) : ∀ {i : ℕ} {ys : List α},
    (∀ j, i ≤ j → j < i + m → t j ≤ t (j + 1)) → ys.Pairwise (· ≤ ·) →
    (∀ y ∈ ys, t i ≤ y ∧ y < t (i + m)) →
    (Counts (windows t n i m) ys ↔
      ∀ j, i ≤ j → j < i + m → ys.countP (fun y => t j ≤ y ∧ y < t (j + 1)) = n j) := by
  induction m with
  | zero =>
    intro i ys _ _ hys
    have hnil : ys = [] := List.eq_nil_iff_forall_not_mem.mpr fun y hy =>
      absurd (hys y hy).2 (not_lt.mpr (hys y hy).1)
    simp only [windows, counts_nil, hnil, true_iff]
    omega
  | succ m ih =>
    intro i ys ht hsorted hys
    obtain ⟨hbefore, hafter⟩ := takeWhile_lt (a := t (i + 1)) hsorted
    have hys' : ∀ y ∈ ys.filter (t (i + 1) ≤ ·), t (i + 1) ≤ y ∧ y < t (i + 1 + m) := by
      intro y hy
      obtain ⟨hy, hge⟩ := List.mem_filter.mp hy
      refine ⟨by simpa using hge, ?_⟩
      have := (hys y hy).2
      rwa [show i + 1 + m = i + (m + 1) by omega]
    have hrest := ih (fun j hj hj' => ht j (by omega) (by omega)) (hsorted.filter _) hys'
    have hmono : ∀ j, i + 1 ≤ j → j < i + (m + 1) → t (i + 1) ≤ t j := by
      intro j hj
      induction j, hj using Nat.le_induction with
      | base => exact fun _ => le_rfl
      | succ j hj ihj => exact fun hj' => (ihj (by omega)).trans (ht j (by omega) (by omega))
    have hfirst : (ys.filter (· < t (i + 1))).length
        = ys.countP (fun y => t i ≤ y ∧ y < t (i + 1)) := by
      rw [← List.countP_eq_length_filter]
      refine List.countP_congr fun y hy => ?_
      simp [(hys y hy).1]
    have hlater : ∀ j, i + 1 ≤ j → j < i + (m + 1) →
        (ys.filter (t (i + 1) ≤ ·)).countP (fun y => t j ≤ y ∧ y < t (j + 1))
          = ys.countP (fun y => t j ≤ y ∧ y < t (j + 1)) :=
      fun j hj hj' => countP_filter_le (hmono j hj hj') ys
    rw [windows, counts_cons, hbefore, hafter, hrest, hfirst]
    refine ⟨fun ⟨hi, hall⟩ j hj hj' => ?_, fun hall => ⟨hall i le_rfl (by omega), ?_⟩⟩
    · rcases hj.eq_or_lt with rfl | hj
      · exact hi
      · rw [← hlater j hj hj', hall j hj (by omega)]
    · intro j hj hj'
      rw [hlater j hj (by omega), hall j (by omega) (by omega)]

end Windows

lemma measurableSet_land {S : Type} [MeasurableSpace S] (ws : List (ℝ × ℕ))
    {A : List (ℝ × ℕ) → ℝ × S → Prop}
    (hA : ∀ ws', total ws = total ws' + 1 → MeasurableSet {p | A ws' p}) :
    MeasurableSet {p : ℝ × S | ∃ ws', land p.1 ws = some ws' ∧ A ws' p} := by
  induction ws with
  | nil => simp [land]
  | cons w ws ih =>
    obtain ⟨t, n⟩ := w
    have hbelow : MeasurableSet {p : ℝ × S | p.1 < t} :=
      measurableSet_lt measurable_fst measurable_const
    cases n with
    | zero =>
      convert hbelow.compl.inter (ih fun ws' h => hA ws' (by simpa [total] using h)) using 1
      ext p
      rcases lt_or_ge p.1 t with hp | hp
      · simp [land_zero, hp]
      · simp [land_zero, hp, not_lt.mpr hp]
    | succ n =>
      convert hbelow.inter (hA ((t, n) :: ws) (by simp [total]; omega)) using 1
      ext p
      by_cases hp : p.1 < t <;> simp [land_succ, hp]

end Sampling
