import Trademgen.DemandFile
import Trademgen.RowDraws
import Trademgen.RowSequence

/-!
The strings that stand for the streams.

The event manager and the shell know a stream by the string that its key is written as. Nothing is
put around the codes of a key, so a string can only be read back where the codes cannot hold the
separators: this is what a demand file ensures.
-/

set_option linter.unusedSectionVars false

namespace Trademgen

/-! ### Dates -/

/-- How a date is written: boost does it. -/
class DateFormat where
  format : Date → String

/-- The dates that boost knows, from 1400 to 9999. -/
def ValidDate (d : Date) : Prop := dayNumber 1400 1 1 ≤ d ∧ d ≤ dayNumber 9999 12 31

/-- What is assumed of the format: eleven characters, and no date is written as another one. -/
structure DateFormatLaw [DateFormat] : Prop where
  length : ∀ d, ValidDate d → (DateFormat.format d).toList.length = 11
  injective : ∀ d d', ValidDate d → ValidDate d' → DateFormat.format d = DateFormat.format d' →
    d = d'

/-- `boost::gregorian::gregorian_calendar::from_day_number`. -/
def fromDayNumber (dayNumber : Date) : ℕ × ℕ × ℕ :=
  let a := (dayNumber + 32044).toNat
  let b := (4 * a + 3) / 146097
  let c := a - 146097 * b / 4
  let d := (4 * c + 3) / 1461
  let e := c - 1461 * d / 4
  let m := (5 * e + 2) / 153
  (100 * b + d - 4800 + m / 10, m + 3 - 12 * (m / 10), e - (153 * m + 2) / 5 + 1)

/-- The centuries, the years of the century, the months from March and the days of a number of
days. -/
lemma exists_calendar (a : ℕ) : ∃ b d m day : ℕ, (4 * a + 3) / 146097 = b ∧
    (4 * (a - 146097 * b / 4) + 3) / 1461 = d ∧
    (5 * (a - 146097 * b / 4 - 1461 * d / 4) + 2) / 153 = m ∧
    a - 146097 * b / 4 - 1461 * d / 4 - (153 * m + 2) / 5 + 1 = day ∧
    d ≤ 99 ∧ m ≤ 11 ∧ 1 ≤ day ∧ day ≤ 31 ∧
    a + 1 = day + (153 * m + 2) / 5 + (365 * d + d / 4) + (36524 * b + b / 4) := by
  obtain ⟨b, hb⟩ : ∃ b, (4 * a + 3) / 146097 = b := ⟨_, rfl⟩
  obtain ⟨c, hc⟩ : ∃ c, a - 146097 * b / 4 = c := ⟨_, rfl⟩
  obtain ⟨d, hd⟩ : ∃ d, (4 * c + 3) / 1461 = d := ⟨_, rfl⟩
  obtain ⟨e, he⟩ : ∃ e, c - 1461 * d / 4 = e := ⟨_, rfl⟩
  obtain ⟨m, hm⟩ : ∃ m, (5 * e + 2) / 153 = m := ⟨_, rfl⟩
  have hcentury : a = c + (36524 * b + b / 4) ∧ c ≤ 36524 := by omega
  have hyear : c = e + (365 * d + d / 4) ∧ e ≤ 365 ∧ d ≤ 99 := by omega
  have hmonth : (153 * m + 2) / 5 ≤ e ∧ e - (153 * m + 2) / 5 ≤ 30 ∧ m ≤ 11 := by omega
  exact ⟨b, d, m, _, hb, by rw [hc, hd], by rw [hc, he, hm], by rw [hc, he], by omega, by omega,
    by omega, by omega, by omega⟩

/-- The day number, with a year that starts in March. -/
lemma dayNumber_march {year month day y m : ℕ} (hy : year + 4800 - (14 - month) / 12 = y)
    (hm : month + 12 * ((14 - month) / 12) - 3 = m) : dayNumber year month day
      = ((day + (153 * m + 2) / 5 + 365 * y + y / 4 - y / 100 + y / 400 : ℕ) : ℤ) - 32045 := by
  subst hy hm
  rfl

/-- The year, the month and the day of a valid date, and the date of them. -/
lemma exists_dayNumber {x : ℤ} (h : ValidDate x) :
    ∃ year month day, fromDayNumber x = (year, month, day) ∧ dayNumber year month day = x ∧
      year < 10000 ∧ 1 ≤ month ∧ month ≤ 12 ∧ day < 100 := by
  have hlow : (2232400 : ℤ) ≤ x := le_trans (le_of_eq (by decide)) h.1
  have hhigh : x ≤ (5373484 : ℤ) := le_trans h.2 (le_of_eq (by decide))
  obtain ⟨a, ha⟩ : ∃ a : ℕ, (a : ℤ) = x + 32044 := ⟨(x + 32044).toNat, by omega⟩
  obtain ⟨b, d, m, day, hb, hd, hm, hday, hd99, hm11, -, hday31, hsum⟩ := exists_calendar a
  have hfrom : fromDayNumber x = (100 * b + d - 4800 + m / 10, m + 3 - 12 * (m / 10), day) := by
    unfold fromDayNumber
    rw [← ha, Int.toNat_natCast]
    simp only [hb, hd, hm, hday]
  refine ⟨_, _, _, hfrom, ?_, ?_, ?_, ?_, ?_⟩
  · have hy : 100 * b + d - 4800 + m / 10 + 4800 - (14 - (m + 3 - 12 * (m / 10))) / 12
        = 100 * b + d := by omega
    have hm' : m + 3 - 12 * (m / 10) + 12 * ((14 - (m + 3 - 12 * (m / 10))) / 12) - 3 = m := by
      omega
    have hfour : (100 * b + d) / 4 = 25 * b + d / 4 := by omega
    have hhundred : (100 * b + d) / 100 = b := by omega
    have hfourHundred : (100 * b + d) / 400 = b / 4 := by omega
    rw [dayNumber_march hy hm', hfour, hhundred, hfourHundred]
    change (_ : ℤ) = x
    omega
  all_goals omega

/-- The names of the months, shortened. -/
def monthName : ℕ → List Char
  | 1 => ['J', 'a', 'n']
  | 2 => ['F', 'e', 'b']
  | 3 => ['M', 'a', 'r']
  | 4 => ['A', 'p', 'r']
  | 5 => ['M', 'a', 'y']
  | 6 => ['J', 'u', 'n']
  | 7 => ['J', 'u', 'l']
  | 8 => ['A', 'u', 'g']
  | 9 => ['S', 'e', 'p']
  | 10 => ['O', 'c', 't']
  | 11 => ['N', 'o', 'v']
  | _ => ['D', 'e', 'c']

/-- The year, the name of the month and the day, as boost writes them. -/
def simpleString (year month day : ℕ) : String :=
  .ofList ([(year / 1000).digitChar, (year / 100 % 10).digitChar, (year / 10 % 10).digitChar,
    (year % 10).digitChar, '-'] ++ monthName month ++ ['-', (day / 10).digitChar,
    (day % 10).digitChar])

/-- Boost's own format. -/
instance boostFormat : DateFormat where
  format d :=
    let (year, month, day) := fromDayNumber d
    simpleString year month day

example : boostFormat.format 2455236 = "2010-Feb-08" := by decide

lemma digitChar_injOn {i j : ℕ} (hi : i < 10) (hj : j < 10) (h : i.digitChar = j.digitChar) :
    i = j := by
  interval_cases i <;> interval_cases j <;> first | rfl | exact absurd h (by decide)

lemma length_monthName (month : ℕ) : (monthName month).length = 3 := by
  unfold monthName
  split <;> rfl

lemma monthName_injOn {i j : ℕ} (hi : 1 ≤ i ∧ i ≤ 12) (hj : 1 ≤ j ∧ j ≤ 12)
    (h : monthName i = monthName j) : i = j := by
  obtain ⟨hi, hi'⟩ := hi
  obtain ⟨hj, hj'⟩ := hj
  interval_cases i <;> interval_cases j <;> first | rfl | exact absurd h (by decide)

lemma simpleString_inj {year month day year' month' day' : ℕ} (hy : year < 10000)
    (hy' : year' < 10000) (hm : 1 ≤ month ∧ month ≤ 12) (hm' : 1 ≤ month' ∧ month' ≤ 12)
    (hd : day < 100) (hd' : day' < 100)
    (h : simpleString year month day = simpleString year' month' day') :
    year = year' ∧ month = month' ∧ day = day' := by
  have hlist := congrArg String.toList h
  unfold simpleString at hlist
  rw [String.toList_ofList, String.toList_ofList, List.append_assoc, List.append_assoc] at hlist
  simp only [List.cons_append, List.nil_append, List.cons.injEq, true_and] at hlist
  obtain ⟨h1, h2, h3, h4, hrest⟩ := hlist
  obtain ⟨hname, hday⟩ := List.append_inj hrest
    ((length_monthName month).trans (length_monthName month').symm)
  simp only [List.cons.injEq, true_and, and_true] at hday
  have h1' := digitChar_injOn (by omega) (by omega) h1
  have h2' := digitChar_injOn (by omega) (by omega) h2
  have h3' := digitChar_injOn (by omega) (by omega) h3
  have h4' := digitChar_injOn (by omega) (by omega) h4
  have h5' := digitChar_injOn (by omega) (by omega) hday.1
  have h6' := digitChar_injOn (by omega) (by omega) hday.2
  exact ⟨by omega, monthName_injOn hm hm' hname, by omega⟩

/-- **Boost's format** writes no two dates the same. -/
lemma boostFormat_law : DateFormatLaw := by
  refine ⟨fun d hd => ?_, fun d d' hd hd' h => ?_⟩
  · obtain ⟨year, month, day, hfrom, -⟩ := exists_dayNumber hd
    change (simpleString _ _ _).toList.length = 11
    unfold simpleString
    rw [String.toList_ofList, List.length_append, List.length_append, length_monthName]
    rfl
  · obtain ⟨year, month, day, hfrom, hnumber, hy, hm1, hm2, hday⟩ := exists_dayNumber hd
    obtain ⟨year', month', day', hfrom', hnumber', hy', hm1', hm2', hday'⟩ := exists_dayNumber hd'
    have hformat : simpleString year month day = simpleString year' month' day' := by
      have h' : (let (year, month, day) := fromDayNumber d; simpleString year month day)
          = let (year, month, day) := fromDayNumber d'; simpleString year month day := h
      rwa [hfrom, hfrom'] at h'
    obtain ⟨rfl, rfl, rfl⟩ := simpleString_inj hy hy' ⟨hm1, hm2⟩ ⟨hm1', hm2'⟩ hday hday' hformat
    exact hnumber.symm.trans hnumber'

/-! ### Keys -/

protected def DemandStreamKey.toString [DateFormat] (key : DemandStreamKey) : String :=
  key.origin ++ "-" ++ key.destination ++ " " ++ DateFormat.format key.preferredDepartureDate ++ " "
    ++ key.preferredCabin

namespace DemandStreamKey

/-- A key whose codes do not hold the separators that matter. -/
structure Legible (key : DemandStreamKey) : Prop where
  origin : '-' ∉ key.origin.toList
  date : ValidDate key.preferredDepartureDate
  cabin : key.preferredCabin.toList.length = 1

lemma toList_toString [DateFormat] (key : DemandStreamKey) : key.toString.toList
    = key.origin.toList ++ '-' :: (key.destination.toList ++ (' ' ::
      (DateFormat.format key.preferredDepartureDate).toList ++ (' ' ::
        key.preferredCabin.toList))) := by
  simp [DemandStreamKey.toString, String.toList_append]

lemma append_cons_inj {α : Type} {a : α} {l l' t t' : List α} (h : a ∉ l) (h' : a ∉ l')
    (heq : l ++ a :: t = l' ++ a :: t') : l = l' ∧ t = t' := by
  induction l generalizing l' with
  | nil =>
    cases l' with
    | nil => exact ⟨rfl, (List.cons.inj heq).2⟩
    | cons b l' => exact absurd (List.cons.inj heq).1 (List.ne_of_not_mem_cons h')
  | cons b l ih =>
    cases l' with
    | nil => exact absurd (List.cons.inj heq).1.symm (List.ne_of_not_mem_cons h)
    | cons b' l' =>
      obtain ⟨rfl, hrest⟩ := List.cons.inj heq
      obtain ⟨rfl, ht⟩ :=
        ih (List.not_mem_of_not_mem_cons h) (List.not_mem_of_not_mem_cons h') hrest
      exact ⟨rfl, ht⟩

/-- **The string of a legible key** is that of no other one. -/
lemma Legible.toString_inj [DateFormat] (hf : DateFormatLaw) {key key' : DemandStreamKey}
    (h : key.Legible) (h' : key'.Legible) (heq : key.toString = key'.toString) : key = key' := by
  have hlist := congrArg String.toList heq
  rw [toList_toString, toList_toString] at hlist
  obtain ⟨horigin, hrest⟩ := append_cons_inj h.origin h'.origin hlist
  have hlength := hf.length _ h.date
  have hlength' := hf.length _ h'.date
  have hcabin := h.cabin
  have hcabin' := h'.cabin
  obtain ⟨hdestination, hend⟩ :=
    List.append_inj' hrest (by simp [hlength, hlength', hcabin, hcabin'])
  obtain ⟨hdate, hcabin⟩ := List.append_inj hend (by simp [hlength, hlength'])
  have hdate' := hf.injective _ _ h.date h'.date (String.toList_inj.mp (List.cons.inj hdate).2)
  have hcabin' := String.toList_inj.mp (List.cons.inj hcabin).2
  obtain ⟨_, _, _, _⟩ := key
  obtain ⟨_, _, _, _⟩ := key'
  simp only at hdate' hcabin' horigin hdestination
  rw [String.toList_inj.mp horigin, String.toList_inj.mp hdestination, hdate', hcabin']

end DemandStreamKey

section Lookup

variable {K G Q : Type} [LinearOrder K] [DateFormat]

/-- The stream that the event manager finds under a string. -/
def getEventGenerator (w : World K G Q) (iKey : String) : Option DemandStreamKey :=
  w.demandStreamList.find? fun key => key.toString = iKey

lemma mem_of_getEventGenerator {w : World K G Q} {iKey : String} {key : DemandStreamKey}
    (h : getEventGenerator w iKey = some key) :
    key ∈ w.demandStreamList ∧ key.toString = iKey :=
  ⟨List.mem_of_find?_eq_some h, by simpa using List.find?_some h⟩

end Lookup

/-! ### The keys of a row -/

open Spirit

section Fields

variable {K : Type} [Field K] {xs r : List Char} {v : Value K} {es : List (Event Action (Datum K))}
  {a : Action}

lemma reads_charP {test : Char → Bool} {skip : List Char → List Char}
    (h : Reads datum (.charP test) skip xs v r es) : ∃ c, skip xs = c :: r ∧ test c = true := by
  obtain ⟨u, hu, -, -⟩ := matched_eq_hit.mp h
  cases hskip : skip xs with
  | nil =>
    rw [hskip] at hu
    cases hu
  | cons c t =>
    rw [hskip, readChar] at hu
    split_ifs at hu with htest
    cases hu
    exact ⟨c, rfl, htest⟩

lemma consumed_eq (t l : List Char) : consumed (t ++ l) l = t := by
  simp [consumed]

/-- Blanks, and what is behind them. -/
lemma exists_blanks {c : Char} {l t : List Char} (h : skipBlanks l = c :: t) :
    ∃ b, l = b ++ c :: t ∧ ∀ x ∈ b, isBlank x = true := by
  refine ⟨l.takeWhile isBlank, ?_, fun x hx => List.mem_takeWhile_imp hx⟩
  rw [← h]
  exact (List.takeWhile_append_dropWhile).symm

/-- **An airport** is written in capitals and digits, with blanks in between. -/
lemma reads_airport (h : Reads (K := K) datum (.act airportP a) skipBlanks xs v r es)
    (ha : ∀ (v : Value K) (t : List Char), datum a v t = .word (String.ofList t)) :
    ∃ s, es = [⟨a, .word s⟩] ∧ ∀ c ∈ s.toList, upperOrDigit c = true ∨ isBlank c = true := by
  obtain ⟨e, hr, rfl⟩ := reads_act.mp h
  obtain rfl := hr.silent rfl
  obtain ⟨_, r₁, _, _, hfirst, hrest, -⟩ := reads_seq.mp hr
  obtain ⟨_, r₂, _, _, hsecond, hthird, -⟩ := reads_seq.mp hrest
  obtain ⟨c₁, h₁, hc₁⟩ := reads_charP hfirst
  obtain ⟨c₂, h₂, hc₂⟩ := reads_charP hsecond
  obtain ⟨c₃, h₃, hc₃⟩ := reads_charP hthird
  rw [show skipBlanks (skipBlanks xs) = skipBlanks xs from List.dropWhile_idempotent _ _] at h₁
  obtain ⟨b₂, rfl, hb₂⟩ := exists_blanks h₂
  obtain ⟨b₃, rfl, hb₃⟩ := exists_blanks h₃
  have htext : skipBlanks xs = (c₁ :: (b₂ ++ c₂ :: (b₃ ++ [c₃]))) ++ r := by
    rw [h₁]
    simp
  refine ⟨String.ofList (c₁ :: (b₂ ++ c₂ :: (b₃ ++ [c₃]))), ?_, fun c hc => ?_⟩
  · rw [htext, consumed_eq, ha]
    rfl
  · rw [String.toList_ofList] at hc
    simp only [List.mem_cons, List.mem_append, List.not_mem_nil, or_false] at hc
    rcases hc with rfl | hc | rfl | hc | rfl
    · exact .inl hc₁
    · exact .inr (hb₂ c hc)
    · exact .inl hc₂
    · exact .inr (hb₃ c hc)
    · exact .inl hc₃

/-- A cabin is one letter. -/
lemma reads_cabin (h : Reads (K := K) datum (.act prefCabin a) skipBlanks xs v r es)
    (ha : ∀ (v : Value K) (t : List Char), datum a v t = .word (String.ofList t)) :
    ∃ s, es = [⟨a, .word s⟩] ∧ s.toList.length = 1 := by
  obtain ⟨e, hr, rfl⟩ := reads_act.mp h
  obtain rfl := hr.silent rfl
  obtain ⟨c, hc, -⟩ := reads_charP hr
  rw [show skipBlanks (skipBlanks xs) = skipBlanks xs from List.dropWhile_idempotent _ _] at hc
  refine ⟨String.ofList [c], ?_, by rw [String.toList_ofList]; rfl⟩
  rw [hc, show c :: r = [c] ++ r from rfl, consumed_eq, ha]
  rfl

/-- The numbers of a date are in the ranges of their rules. -/
structure CalendarDate.InRange (x : CalendarDate) : Prop where
  year : 2000 ≤ x.year ∧ x.year ≤ 2099
  month : 1 ≤ x.month ∧ x.month ≤ 12
  day : 1 ≤ x.day ∧ x.day ≤ 31

lemma reads_uint {i j low high : ℕ} {skip : List Char → List Char}
    (ha : ∀ (n : ℕ) (t : List Char), datum (K := K) a (.nat n) t = .nat n)
    (h : Reads datum (.act (.uintP i j low high) a) skip xs v r es) :
    ∃ n, es = [⟨a, .nat n⟩] ∧ low ≤ n ∧ n ≤ high := by
  obtain ⟨hr, t, rfl⟩ := reads_act_silent rfl h
  obtain ⟨n, hread, rfl, -⟩ := matched_eq_hit.mp hr
  refine ⟨n, by rw [ha], ?_⟩
  unfold readUint at hread
  dsimp only at hread
  split_ifs at hread with hc
  cases hread
  exact hc.2

lemma reads_date_inRange (h : Reads datum (.act date a) skipBlanks xs v r es)
    (ha : ∀ (v : Value K) (t : List Char), datum a v t = .none) :
    ∃ x : CalendarDate, es = x.events a ∧ x.InRange := by
  obtain ⟨e, hr, rfl⟩ := reads_act.mp h
  obtain ⟨_, _, _, _, _, hyear, -, hrest, rfl⟩ := reads_between.mp (reads_lexeme.mp hr)
  obtain ⟨_, _, _, _, _, hmonth, -, hday, rfl⟩ := reads_between.mp hrest
  obtain ⟨year, rfl, hyearRange⟩ := reads_uint (fun _ _ => rfl) hyear
  obtain ⟨month, rfl, hmonthRange⟩ := reads_uint (fun _ _ => rfl) hmonth
  obtain ⟨day, rfl, hdayRange⟩ := reads_uint (fun _ _ => rfl) hday
  exact ⟨⟨year, month, day⟩, by rw [ha]; rfl, hyearRange, hmonthRange, hdayRange⟩

variable [LinearOrder K] [IsStrictOrderedRing K]

/-- What the fields of a key are made of. -/
structure Row.Legible (R : Row K) : Prop where
  prefDepDateStart : R.prefDepDateStart.InRange
  prefDepDateEnd : R.prefDepDateEnd.InRange
  origin : ∀ c ∈ R.origin.toList, upperOrDigit c = true ∨ isBlank c = true
  prefCabin : R.prefCabin.toList.length = 1

/-- **The fields of a key**, in a row that is read. -/
lemma Row.legible {R : Row K} (h : Reads datum demandFields skipBlanks xs v r R.events) :
    R.Legible := by
  obtain ⟨_, _, _, _, _, hrange, -, h₁, heq⟩ := reads_between.mp h
  obtain ⟨_, _, _, _, _, hstart, -, hrange₁, rfl⟩ := reads_between.mp hrange
  obtain ⟨_, _, _, _, _, hend, -, hdow, rfl⟩ := reads_between.mp hrange₁
  obtain ⟨_, _, _, _, _, horigin, -, h₂, rfl⟩ := reads_between.mp h₁
  obtain ⟨_, _, _, _, _, hdestination, -, h₃, rfl⟩ := reads_between.mp h₂
  obtain ⟨_, _, _, _, _, hcabin, -, h₄, rfl⟩ := reads_between.mp h₃
  obtain ⟨start, rfl, hstartRange⟩ := reads_date_inRange hstart fun _ _ => rfl
  obtain ⟨finish, rfl, hendRange⟩ := reads_date_inRange hend fun _ _ => rfl
  obtain ⟨dow, rfl⟩ := reads_word rfl (fun _ _ => rfl) hdow
  obtain ⟨origin, rfl, horiginText⟩ := reads_airport horigin fun _ _ => rfl
  obtain ⟨destination, rfl⟩ := reads_word rfl (fun _ _ => rfl) hdestination
  obtain ⟨prefCabin, rfl, hcabinText⟩ := reads_cabin hcabin fun _ _ => rfl
  obtain ⟨⟨y₁, m₁, d₁⟩, ⟨y₂, m₂, d₂⟩, _⟩ := R
  simp only [Row.events, CalendarDate.events, List.cons_append, List.nil_append, List.append_assoc,
    List.cons.injEq, Event.mk.injEq, Datum.nat.injEq, Datum.word.injEq, true_and] at heq
  obtain ⟨rfl, rfl, rfl, rfl, rfl, rfl, rfl, rfl, rfl, rfl, -⟩ := heq
  exact ⟨hstartRange, hendRange, horiginText, hcabinText⟩

end Fields

/-! ### The keys of a file -/

lemma CalendarDate.InRange.dayNumber {x : CalendarDate} (h : x.InRange) :
    (2232400 : ℤ) ≤ Trademgen.dayNumber x.year x.month x.day ∧
      Trademgen.dayNumber x.year x.month x.day ≤ (5373484 : ℤ) := by
  obtain ⟨hyear, hmonth, hday⟩ := h
  have hnumber := @dayNumber_march x.year x.month x.day _ _ rfl rfl
  rw [hnumber]
  change (2232400 : ℤ) ≤ (_ : ℤ) ∧ (_ : ℤ) ≤ (5373484 : ℤ)
  omega

lemma CalendarDate.getDate_eq_ok {x : CalendarDate} {y : Date} (h : x.getDate = .ok y) :
    y = Trademgen.dayNumber x.year x.month x.day := by
  unfold CalendarDate.getDate at h
  split_ifs at h with hday
  cases h
  rfl

lemma Row.describe_fields {K : Type} [Field K] [LinearOrder K] [FloorRing K] {R : Row K}
    {x : Description K} (h : R.describe = .ok x) : x.origin = R.origin ∧
      x.prefCabin = R.prefCabin ∧ x.demandMean = R.demandMean.1 := by
  unfold Row.describe at h
  obtain ⟨lStart, -, h₁⟩ := bind_eq_ok_iff.mp h
  obtain ⟨lEnd, -, h₂⟩ := bind_eq_ok_iff.mp h₁
  obtain ⟨pos, -, h₃⟩ := bind_eq_ok_iff.mp h₂
  obtain ⟨channel, -, h₄⟩ := bind_eq_ok_iff.mp h₃
  obtain ⟨trip, -, h₅⟩ := bind_eq_ok_iff.mp h₄
  obtain ⟨stay, -, h₆⟩ := bind_eq_ok_iff.mp h₅
  obtain ⟨ff, -, hx⟩ := bind_eq_ok_iff.mp h₆
  cases hx
  exact ⟨rfl, rfl, rfl⟩

section Files

variable {K G Q : Type} [Field K] [LinearOrder K] [IsStrictOrderedRing K] [FloorRing K] [Libm K]
  [RandomGeneration K G] [EventQueue K Q] {text rest : List Char} {s s' : ParserState K G Q}
  {v : Value K}

/-- **The keys** of a row that is accepted. -/
lemma HandsOver.legible {R : Row K} {d : DemandStruct K} (hs : RowStart s)
    (hd : HandsOver text s s' R d) {key : DemandStreamKey}
    (hkey : key ∈ createdKeys s.world s'.world) : key.Legible := by
  obtain ⟨_, _, hwritten⟩ := hd.written
  obtain ⟨hstart, hend, horigin, hcabin⟩ := Row.legible hwritten
  obtain ⟨⟨lStart, lEnd, hlStart, hlEnd, hrange⟩, -⟩ := Row.describe_eq_ok (hd.describe hs)
  obtain ⟨horigin', hcabin', -⟩ := Row.describe_fields (hd.describe hs)
  change d.dateRange = _ at hrange
  change d.origin = _ at horigin'
  change d.prefCabin = _ at hcabin'
  obtain ⟨x, rfl, hlow, hhigh, -⟩ := (mem_createdKeys hd.handed).mp hkey
  rw [hrange, CalendarDate.getDate_eq_ok hlStart, CalendarDate.getDate_eq_ok hlEnd] at hlow hhigh
  refine ⟨fun hdash => ?_, ⟨?_, ?_⟩, ?_⟩
  · change '-' ∈ d.origin.toList at hdash
    rw [horigin'] at hdash
    exact absurd (horigin _ hdash) (by decide)
  · exact le_trans (le_of_eq_of_le (by decide) hstart.dayNumber.1) hlow
  · exact le_trans (Int.lt_add_one_iff.mp hhigh)
      (hend.dayNumber.2.trans (le_of_eq (by decide)))
  · change d.prefCabin.toList.length = 1
    rw [hcabin', hcabin]

/-- The keys of the streams can be told apart by their strings. -/
def World.Legible (w : World K G Q) : Prop := ∀ key ∈ w.demandStreamList, key.Legible

lemma perform_world {a : Action} (ha : a ≠ .doEndDemand) {f l : List Char}
    (h : perform a v f l s = .done s') : s'.world = s.world := by
  unfold perform at h
  rw [if_neg ha] at h
  cases hstore : store a v f l s.demand with
  | ok d =>
    rw [hstore] at h
    cases h
    rfl
  | error e =>
    rw [hstore] at h
    cases h

/-- Between two rows nothing is done to the world. -/
lemma parse_world {p : Grammar Action} (hp : .doEndDemand ∉ p.acts)
    (skip : List Char → List Char) (xs : List Char) (s : ParserState K G Q) :
    (parse perform p skip xs s).Holds fun t => t.world = s.world :=
  parse_holds (fun _ ha _ _ _ _ _ h hd =>
    (perform_world (fun heq => hp (heq ▸ ha)) hd).trans h) rfl

/-- A row adds its own streams. -/
lemma demand_legible (hs : RowStart s) (h : s.world.Legible)
    (hrow : parse perform demand skipBlanks text s = .hit v rest s') : s'.world.Legible := by
  obtain ⟨R, d, hd⟩ := exists_handsOver hrow
  intro key hkey
  have hcreated := creates_range hd.handed
  obtain ⟨w₁, hw₁, hlist⟩ := exists_creates hcreated s.world
  have hsame := hd.handed
  unfold creates at hsame hw₁
  obtain rfl : s'.world = w₁ := (EStateM.Result.ok.inj (hsame.symm.trans hw₁)).2
  rw [hlist.streams, List.mem_append] at hkey
  rcases hkey with hold | hnew
  · exact h key hold
  · refine hd.legible hs ?_
    rwa [createdKeys, hlist.streams, List.drop_left]

lemma demandItem_legible (hs : RowStart s) (h : s.world.Legible)
    (hitem : parse perform demandItem skipBlanks text s = .hit v rest s') : s'.world.Legible := by
  have hother := parse_world (show .doEndDemand ∉ notToBeParsed.acts by decide) skipBlanks text s
  rcases follow_eq_hit.mp hitem with ⟨v₁, r₁, s₁, hp, heq⟩ | ⟨s₁, hp, hrow⟩
  · rw [hp] at hother
    cases heq
    have hworld : s'.world = s.world := hother
    rwa [hworld]
  · have hnone := parse_notToBeParsed text s
    rw [hp] at hnone
    obtain rfl : s₁ = s := hnone
    exact demand_legible hs h hrow

lemma parse_demandItem_miss_world (hitem : parse perform demandItem skipBlanks text s = .miss s') :
    s'.world = s.world := by
  have hother := parse_notToBeParsed text s
  rcases follow_eq_miss.mp hitem with ⟨v₁, r₁, s₁, -, hc⟩ | ⟨s₁, hp, hrow⟩
  · cases hc
  rw [hp] at hother
  obtain rfl : s₁ = s := hother
  have hfields := parse_world (show .doEndDemand ∉ demandFields.acts by decide) skipBlanks text s₁
  rcases follow_eq_miss.mp hrow with ⟨v₂, r₂, s₂, hf, hend⟩ | ⟨s₂, hf, heq⟩
  · rw [hf] at hfields
    rcases follow_eq_miss.mp hend with ⟨v₃, r₃, s₃, -, hact⟩ | ⟨s₃, hch, heq⟩
    · exact absurd hact result_ne_miss
    · cases heq
      have hlast := parse_world (show .doEndDemand ∉ demandEnd.acts by decide) skipBlanks
        (skipBlanks r₂) s₂
      rw [hch] at hlast
      exact Eq.trans hlast hfields
  · cases heq
    rwa [hf] at hfields

/-- **A demand file** creates streams whose keys can be told apart by their strings. -/
lemma demandList_legible {stop : List Char} (hs : RowStart s) (h : s.world.Legible)
    (hlist : parse perform demandList skipBlanks text s = .hit v stop s') : s'.world.Legible := by
  induction hlen : text.length using Nat.strong_induction_on generalizing text s with
  | _ n ih =>
    subst hlen
    rw [parse_demandList] at hlist
    rcases follow_eq_hit.mp hlist with ⟨v₁, r₁, s₁, hitem, hrest⟩ | ⟨s₁, hitem, heq⟩
    · have hlt : r₁.length < text.length := by
        have := parse_length length_skipBlanks hitem
        rwa [show demandItem.eats = true by decide] at this
      exact ih _ hlt (hs.item hitem) (demandItem_legible hs h hitem) hrest rfl
    · cases heq
      rwa [World.Legible, parse_demandItem_miss_world hitem]

/-- Of streams that can be told apart, each is found under its own string. -/
lemma getEventGenerator_iff [DateFormat] (hf : DateFormatLaw) {w : World K G Q} (h : w.Legible)
    {iKey : String} {key : DemandStreamKey} :
    getEventGenerator w iKey = some key ↔ key ∈ w.demandStreamList ∧ key.toString = iKey := by
  refine ⟨mem_of_getEventGenerator, fun ⟨hkey, hstring⟩ => ?_⟩
  obtain ⟨found, hfound⟩ : ∃ found, getEventGenerator w iKey = some found :=
    Option.isSome_iff_exists.mp (List.find?_isSome.mpr ⟨key, hkey, by simpa using hstring⟩)
  obtain ⟨hmem, hsame⟩ := mem_of_getEventGenerator hfound
  rw [hfound, (h found hmem).toString_inj hf (h key hkey) (hsame.trans hstring.symm)]

/-- **A demand file**, read into an event manager without streams: what is found under a string is
the stream whose key is written as it, and each stream is found so. -/
theorem getEventGenerator_file [DateFormat] (hf : DateFormatLaw) {defaultDatePeriod : DatePeriod}
    {defaultDow : DoWStruct} {defaultCabinCode : String} {w : World K G Q} {oResult : Bool}
    (hw : w.demandStreamList = [])
    (h : generateDemand text ⟨.make defaultDatePeriod defaultDow defaultCabinCode, w, []⟩
      = .returned oResult s') (iKey : String) (key : DemandStreamKey) :
    getEventGenerator s'.world iKey = some key ↔
      key ∈ s'.world.demandStreamList ∧ key.toString = iKey := by
  have hlegible : w.Legible := by
    intro key hkey
    rw [hw] at hkey
    cases hkey
  refine getEventGenerator_iff hf ?_
  unfold generateDemand at h
  cases hlist : parse perform demandList skipBlanks text
      (⟨.make defaultDatePeriod defaultDow defaultCabinCode, w, []⟩ : ParserState K G Q) with
  | hit v stop s =>
    rw [hlist] at h
    cases h
    exact demandList_legible (.start _ _ _ _) hlegible hlist
  | _ =>
    rw [hlist] at h
    cases h

end Files

section Real

/-- The keys of the streams after a file. -/
def keysOf : Ending ℝ (Tape ℝ) (SortedQueue ℝ) → List DemandStreamKey
  | .returned _ s => s.world.demandStreamList
  | _ => []

theorem getEventGenerator_file_sample : ∃ (oResult : Bool) (s' : ParserState ℝ (Tape ℝ) _),
    generateDemand fileSample startSample = .returned oResult s' ∧
      getEventGenerator s'.world "SIN-HND 2010-Mar-09 M"
        = some ⟨"SIN", "HND", dayNumber 2010 3 9, "M"⟩ := by
  have hkeys : keysOf (generateDemand fileSample startSample)
      = [⟨"SIN", "HND", dayNumber 2010 3 9, "M"⟩] := by decide +kernel
  cases hfile : generateDemand fileSample startSample with
  | returned oResult s' =>
    rw [hfile] at hkeys
    have hmem : (⟨"SIN", "HND", dayNumber 2010 3 9, "M"⟩ : DemandStreamKey) ∈
        s'.world.demandStreamList := by
      rw [show s'.world.demandStreamList = _ from hkeys]
      exact List.mem_singleton_self _
    exact ⟨oResult, s', rfl,
      (getEventGenerator_file boostFormat_law rfl hfile _ _).mpr ⟨hmem, by decide⟩⟩
  | _ =>
    rw [hfile] at hkeys
    cases hkeys

end Real

end Trademgen
