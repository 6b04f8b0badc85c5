import Trademgen.DemandParser
import Trademgen.Lib.SpiritLocality

/-!
What is written in a demand row.

The semantic actions of a row run in the order of its fields, each on the number or on the word
it finds there. The row is the list of those numbers and words.
-/

set_option linter.unusedSectionVars false

namespace Trademgen

open Spirit Spirit.Grammar

/-! ### What an action is given -/

inductive Datum (K : Type)
  | none
  | nat (n : ℕ)
  | real (x : K)
  | word (s : String)

namespace Datum

variable {K : Type}

def value : Datum K → Value K
  | .none => .none
  | .nat n => .nat n
  | .real x => .real x
  | .word _ => .none

def text : Datum K → List Char
  | .none => []
  | .nat _ => []
  | .real _ => []
  | .word s => s.toList

def ofValue : Value K → Datum K
  | .none => .none
  | .nat n => .nat n
  | .real x => .real x

def map {L : Type} (f : K → L) : Datum K → Datum L
  | .none => .none
  | .nat n => .nat n
  | .real x => .real (f x)
  | .word s => .word s

def amount : Datum K → Option K
  | .real x => some x
  | _ => Option.none

@[simp] lemma amount_map {L : Type} (f : K → L) (x : Datum K) :
    (x.map f).amount = x.amount.map f := by
  cases x <;> rfl

@[simp] lemma value_ofValue (v : Value K) : (ofValue v).value = v := by
  cases v <;> rfl

end Datum

/-- What an action uses of the value and the text of its match. -/
def datum {K : Type} (a : Action) (v : Value K) (t : List Char) : Datum K :=
  match a with
  | .storeDow | .storeOrigin | .storeDestination | .storePrefCabin | .storePosCode
  | .storeChannelCode | .storeTripCode | .storeFFCode => .word (String.ofList t)
  | .storePrefDepDateRangeStart | .storePrefDepDateRangeEnd | .storePrefDepTime
  | .doEndDemand => .none
  | _ => .ofValue v

section Enter

variable {K : Type} [Field K] [LinearOrder K] [FloorRing K]

def enter (a : Action) (x : Datum K) (d : DemandStruct K) :
    Except ActionException (DemandStruct K) :=
  store a x.value x.text [] d

lemma slice_text (t : List Char) :
    slice (Datum.word (K := K) (String.ofList t)).text [] = String.ofList t := by
  simp [slice, Datum.text]

/-- The actions use nothing but that. -/
lemma store_eq_enter (a : Action) (v : Value K) (f l : List Char) (d : DemandStruct K) :
    store a v f l d = enter a (datum a v (consumed f l)) d := by
  cases a <;> simp only [enter, datum, store, Datum.value_ofValue, slice_text] <;> rfl

end Enter

/-! ### Rows -/

/-- The numbers of a row have no sign. -/
abbrev Amount (K : Type) [Zero K] [LE K] := { x : K // 0 ≤ x }

structure CalendarDate where
  year : ℕ
  month : ℕ
  day : ℕ

structure ClockTime where
  hours : ℕ
  minutes : Option ℕ
  seconds : Option ℕ

/-- The fields of a row, under the names of their rules. -/
structure Row (K : Type) [Zero K] [LE K] where
  prefDepDateStart : CalendarDate
  prefDepDateEnd : CalendarDate
  dow : String
  origin : String
  destination : String
  prefCabin : String
  posDist : List (String × Amount K)
  channelDist : List (String × Amount K)
  tripDist : List (String × Amount K)
  stayDist : List (ℕ × Amount K)
  ffDist : List (String × Amount K)
  changeFeeProb : Amount K
  changeFeeDisutility : Amount K
  nonRefundableProb : Amount K
  nonRefundableDisutility : Amount K
  prefDepTimeDist : List (ClockTime × Amount K)
  wtp : Amount K
  timeValueDist : List (Amount K × Amount K)
  dtdDist : List (Amount K × Amount K)
  demandMean : Amount K
  demandStdDev : Amount K

section Events

variable {K : Type}

/-- A date, and the action on the date. -/
def CalendarDate.events (a : Action) (x : CalendarDate) : List (Event Action (Datum K)) :=
  [⟨.assignYear, .nat x.year⟩, ⟨.assignMonth, .nat x.month⟩, ⟨.assignDay, .nat x.day⟩, ⟨a, .none⟩]

/-- What may be missing of a time. -/
def optionEvents (a : Action) (x : Option ℕ) : List (Event Action (Datum K)) :=
  match x with
  | none => []
  | some n => [⟨a, .nat n⟩]

def ClockTime.events (x : ClockTime) : List (Event Action (Datum K)) :=
  ⟨.assignHours, .nat x.hours⟩ :: (optionEvents .assignMinutes x.minutes
    ++ optionEvents .assignSeconds x.seconds ++ [⟨.storePrefDepTime, .none⟩])

/-- The pairs of a distribution, each with the actions on its two sides. -/
def pairEvents {α : Type} [Zero K] [LE K] (left : α → List (Event Action (Datum K))) (b : Action)
    (l : List (α × Amount K)) : List (Event Action (Datum K)) :=
  l.flatMap fun p => left p.1 ++ [⟨b, .real p.2⟩]

variable [Zero K] [LE K]

def Row.events (R : Row K) : List (Event Action (Datum K)) :=
  R.prefDepDateStart.events .storePrefDepDateRangeStart
    ++ R.prefDepDateEnd.events .storePrefDepDateRangeEnd
    ++ [⟨.storeDow, .word R.dow⟩, ⟨.storeOrigin, .word R.origin⟩,
      ⟨.storeDestination, .word R.destination⟩, ⟨.storePrefCabin, .word R.prefCabin⟩]
    ++ pairEvents (fun x => [⟨.storePosCode, .word x⟩]) .storePosProbMass R.posDist
    ++ pairEvents (fun x => [⟨.storeChannelCode, .word x⟩]) .storeChannelProbMass R.channelDist
    ++ pairEvents (fun x => [⟨.storeTripCode, .word x⟩]) .storeTripProbMass R.tripDist
    ++ pairEvents (fun x => [⟨.storeStayCode, .nat x⟩]) .storeStayProbMass R.stayDist
    ++ pairEvents (fun x => [⟨.storeFFCode, .word x⟩]) .storeFFProbMass R.ffDist
    ++ [⟨.storeDemandChangeFeeProb, .real R.changeFeeProb⟩,
      ⟨.storeDemandChangeFeeDisutility, .real R.changeFeeDisutility⟩,
      ⟨.storeDemandNonRefundableProb, .real R.nonRefundableProb⟩,
      ⟨.storeDemandNonRefundableDisutility, .real R.nonRefundableDisutility⟩]
    ++ pairEvents ClockTime.events .storePrefDepTimeProbMass R.prefDepTimeDist
    ++ [⟨.storeWTP, .real R.wtp⟩]
    ++ pairEvents (fun x : Amount K => [⟨.storeTimeValue, .real x.1⟩]) .storeTimeValueProbMass
      R.timeValueDist
    ++ pairEvents (fun x : Amount K => [⟨.storeDTD, .real x.1⟩]) .storeDTDProbMass R.dtdDist
    ++ [⟨.storeDemandMean, .real R.demandMean⟩, ⟨.storeDemandStdDev, .real R.demandStdDev⟩]

end Events

/-! ### Reading a row -/

section Reading

variable {K : Type} [Field K] {p : Grammar Action} {skip : List Char → List Char}
  {xs r : List Char} {v : Value K} {es : List (Event Action (Datum K))} {a : Action}

lemma reads_act_silent (hp : p.acts = []) (h : Reads datum (.act p a) skip xs v r es) :
    Reads (K := K) datum p skip (skip xs) v r [] ∧ ∃ t, es = [⟨a, datum a v t⟩] := by
  obtain ⟨e, hr, rfl⟩ := reads_act.mp h
  obtain rfl := hr.silent hp
  exact ⟨hr, _, rfl⟩

/-- An action on a word. -/
lemma reads_word (hp : p.acts = [])
    (ha : ∀ (v : Value K) (t : List Char), datum a v t = .word (String.ofList t))
    (h : Reads datum (.act p a) skip xs v r es) : ∃ s, es = [⟨a, .word s⟩] := by
  obtain ⟨-, t, rfl⟩ := reads_act_silent hp h
  exact ⟨_, by rw [ha]⟩

/-- An action on an integer. -/
lemma reads_nat {i j low high : ℕ}
    (ha : ∀ (n : ℕ) (t : List Char), datum (K := K) a (.nat n) t = .nat n)
    (h : Reads datum (.act (.uintP i j low high) a) skip xs v r es) : ∃ n, es = [⟨a, .nat n⟩] := by
  obtain ⟨hr, t, rfl⟩ := reads_act_silent rfl h
  obtain ⟨n, -, rfl, -⟩ := matched_eq_hit.mp hr
  exact ⟨n, by rw [ha]⟩

section Ordered

variable [LinearOrder K] [IsStrictOrderedRing K]

/-- An action on a real number. -/
lemma reads_real (ha : ∀ (x : K) (t : List Char), datum a (.real x) t = .real x)
    (h : Reads datum (.act .urealP a) skip xs v r es) : ∃ x : Amount K, es = [⟨a, .real x⟩] := by
  obtain ⟨hr, t, rfl⟩ := reads_act_silent rfl h
  obtain ⟨x, hx, rfl, -⟩ := matched_eq_hit.mp hr
  exact ⟨⟨x, readUreal_nonneg hx⟩, by rw [ha]⟩

end Ordered

lemma reads_date (h : Reads datum (.act date a) skip xs v r es)
    (ha : ∀ (v : Value K) (t : List Char), datum a v t = .none) :
    ∃ x : CalendarDate, es = x.events a := by
  obtain ⟨e, hr, rfl⟩ := reads_act.mp h
  obtain ⟨_, _, _, _, _, hyear, -, hrest, rfl⟩ := reads_between.mp (reads_lexeme.mp hr)
  obtain ⟨_, _, _, _, _, hmonth, -, hday, rfl⟩ := reads_between.mp hrest
  obtain ⟨year, rfl⟩ := reads_nat (fun _ _ => rfl) hyear
  obtain ⟨month, rfl⟩ := reads_nat (fun _ _ => rfl) hmonth
  obtain ⟨day, rfl⟩ := reads_nat (fun _ _ => rfl) hday
  exact ⟨⟨year, month, day⟩, by rw [ha]; rfl⟩

/-- A part of a time that may be missing. -/
lemma reads_option {i j low high : ℕ}
    (ha : ∀ (n : ℕ) (t : List Char), datum (K := K) a (.nat n) t = .nat n)
    (h : Reads datum (.opt (ch '.' >> .act (.uintP i j low high) a)) skip xs v r es) :
    ∃ x : Option ℕ, es = optionEvents a x := by
  rcases h.opt (quiet_seq rfl fun _ => quiet_act (quiet_silent rfl)) with hr | ⟨-, rfl⟩
  · obtain ⟨_, _, e₁, e₂, hdot, hn, rfl⟩ := reads_seq.mp hr
    obtain ⟨-, -, rfl⟩ := reads_ch.mp hdot
    obtain ⟨n, rfl⟩ := reads_nat ha hn
    exact ⟨some n, rfl⟩
  · exact ⟨none, rfl⟩

lemma reads_time (h : Reads (K := K) datum (.act time .storePrefDepTime) skip xs v r es) :
    ∃ x : ClockTime, es = x.events := by
  obtain ⟨e, hr, rfl⟩ := reads_act.mp h
  obtain ⟨_, _, _, _, hhours, hrest, rfl⟩ := reads_seq.mp (reads_lexeme.mp hr)
  obtain ⟨_, _, _, _, hminutes, hseconds, rfl⟩ := reads_seq.mp hrest
  obtain ⟨hours, rfl⟩ := reads_nat (fun _ _ => rfl) hhours
  obtain ⟨minutes, rfl⟩ := reads_option (fun _ _ => rfl) hminutes
  obtain ⟨seconds, rfl⟩ := reads_option (fun _ _ => rfl) hseconds
  exact ⟨⟨hours, minutes, seconds⟩, by simp [ClockTime.events, datum]⟩

variable [LinearOrder K] [IsStrictOrderedRing K]

/-- A pair, from the readings of its left side. -/
lemma reads_pair {α : Type} {left : α → List (Event Action (Datum K))} {b : Action}
    (hleft : ∀ {xs v r es}, Reads datum p skipBlanks xs v r es → ∃ x, es = left x)
    (hb : ∀ (x : K) (t : List Char), datum b (.real x) t = .real x)
    (h : Reads datum (p >> ch ':' >> .act .urealP b) skipBlanks xs v r es) :
    ∃ q : α × Amount K, es = left q.1 ++ [⟨b, .real q.2⟩] := by
  obtain ⟨_, _, _, _, _, hp, -, hshare, rfl⟩ := reads_between.mp h
  obtain ⟨x, rfl⟩ := hleft hp
  obtain ⟨y, rfl⟩ := reads_real hb hshare
  exact ⟨(x, y), rfl⟩

/-- **A distribution**: its pairs, when what follows it is the end of the field. -/
lemma reads_dist {α : Type} {left : α → List (Event Action (Datum K))} {b : Action}
    {t : List Char}
    (hleft : ∀ {xs v r es}, Reads datum p skipBlanks xs v r es → ∃ x, es = left x)
    (hb : ∀ (x : K) (t : List Char), datum b (.real x) t = .real x)
    (h : Reads datum (dist (p >> ch ':' >> .act .urealP b)) skipBlanks xs v r es)
    (hr : skipBlanks r = ';' :: t) :
    ∃ l : List (α × Amount K), es = pairEvents left b l := by
  obtain ⟨_, r₁, _, _, hfirst, hrest, rfl⟩ := reads_seq.mp h
  obtain ⟨q, rfl⟩ := reads_pair hleft hb hfirst
  have hitem {xs r : List Char} {v : Value K} {es : List (Event Action (Datum K))}
      (h : Reads datum (ch ',' >> p >> ch ':' >> .act .urealP b) skipBlanks xs v r es) :
      ∃ q : α × Amount K, es = left q.1 ++ [⟨b, .real q.2⟩] := by
    obtain ⟨_, _, _, _, hcomma, hpair, rfl⟩ := reads_seq.mp h
    obtain ⟨-, -, rfl⟩ := reads_ch.mp hcomma
    exact reads_pair hleft hb hpair
  obtain ⟨l, rfl⟩ := hrest.star (fun xs => length_dropWhile_le _ xs) rfl hitem
    (quiet_of_ne hr (by decide))
  exact ⟨q :: l, rfl⟩

/-- Two real numbers with a separator in between. -/
lemma reads_reals {b : Action} {c : Char}
    (ha : ∀ (x : K) (t : List Char), datum a (.real x) t = .real x)
    (hb : ∀ (x : K) (t : List Char), datum b (.real x) t = .real x)
    (h : Reads datum (.act .urealP a >> ch c >> .act .urealP b) skip xs v r es) :
    ∃ x y : Amount K, es = [⟨a, .real x⟩, ⟨b, .real y⟩] := by
  obtain ⟨_, _, _, _, _, hx, -, hy, rfl⟩ := reads_between.mp h
  obtain ⟨x, rfl⟩ := reads_real ha hx
  obtain ⟨y, rfl⟩ := reads_real hb hy
  exact ⟨x, y, rfl⟩

/-- **The fields** of a row that is read are those of some row. -/
theorem reads_demandFields (h : Reads (K := K) datum demandFields skipBlanks xs v r es) :
    ∃ R : Row K, es = R.events := by
  obtain ⟨_, _, _, _, _, hrange, -, h₁, rfl⟩ := reads_between.mp h
  obtain ⟨_, _, _, _, _, hstart, -, hrange₁, rfl⟩ := reads_between.mp hrange
  obtain ⟨_, _, _, _, _, hend, -, hdow, rfl⟩ := reads_between.mp hrange₁
  obtain ⟨_, _, _, _, _, horigin, -, h₂, rfl⟩ := reads_between.mp h₁
  obtain ⟨_, _, _, _, _, hdestination, -, h₃, rfl⟩ := reads_between.mp h₂
  obtain ⟨_, _, _, _, _, hcabin, -, h₄, rfl⟩ := reads_between.mp h₃
  obtain ⟨_, _, _, _, _, hpos, hposEnd, h₅, rfl⟩ := reads_between.mp h₄
  obtain ⟨_, _, _, _, _, hchannel, hchannelEnd, h₆, rfl⟩ := reads_between.mp h₅
  obtain ⟨_, _, _, _, _, htrip, htripEnd, h₇, rfl⟩ := reads_between.mp h₆
  obtain ⟨_, _, _, _, _, hstay, hstayEnd, h₈, rfl⟩ := reads_between.mp h₇
  obtain ⟨_, _, _, _, _, hff, hffEnd, h₉, rfl⟩ := reads_between.mp h₈
  obtain ⟨_, _, _, _, _, hfees, -, h₁₀, rfl⟩ := reads_between.mp h₉
  obtain ⟨_, _, _, _, _, hnonRefundable, -, h₁₁, rfl⟩ := reads_between.mp h₁₀
  obtain ⟨_, _, _, _, _, htime, htimeEnd, h₁₂, rfl⟩ := reads_between.mp h₁₁
  obtain ⟨_, _, _, _, _, hwtp, -, h₁₃, rfl⟩ := reads_between.mp h₁₂
  obtain ⟨_, _, _, _, _, htimeValue, htimeValueEnd, h₁₄, rfl⟩ := reads_between.mp h₁₃
  obtain ⟨_, _, _, _, _, hdtd, hdtdEnd, h₁₅, rfl⟩ := reads_between.mp h₁₄
  obtain ⟨_, _, _, _, _, hN, -, h₁₆, rfl⟩ := reads_between.mp h₁₅
  obtain ⟨-, -, rfl⟩ := reads_ch.mp hN
  obtain ⟨start, rfl⟩ := reads_date hstart fun _ _ => rfl
  obtain ⟨finish, rfl⟩ := reads_date hend fun _ _ => rfl
  obtain ⟨dow, rfl⟩ := reads_word rfl (fun _ _ => rfl) hdow
  obtain ⟨origin, rfl⟩ := reads_word rfl (fun _ _ => rfl) horigin
  obtain ⟨destination, rfl⟩ := reads_word rfl (fun _ _ => rfl) hdestination
  obtain ⟨prefCabin, rfl⟩ := reads_word rfl (fun _ _ => rfl) hcabin
  obtain ⟨posDist, rfl⟩ := reads_dist (reads_word rfl fun _ _ => rfl) (fun _ _ => rfl) hpos hposEnd
  obtain ⟨channelDist, rfl⟩ := reads_dist (reads_word rfl fun _ _ => rfl) (fun _ _ => rfl) hchannel
    hchannelEnd
  obtain ⟨tripDist, rfl⟩ := reads_dist (reads_word rfl fun _ _ => rfl) (fun _ _ => rfl) htrip
    htripEnd
  obtain ⟨stayDist, rfl⟩ := reads_dist (reads_nat fun _ _ => rfl) (fun _ _ => rfl) hstay hstayEnd
  obtain ⟨ffDist, rfl⟩ := reads_dist (reads_word rfl fun _ _ => rfl) (fun _ _ => rfl) hff hffEnd
  obtain ⟨feeProb, feeDisutility, rfl⟩ := reads_reals (fun _ _ => rfl) (fun _ _ => rfl) hfees
  obtain ⟨nrProb, nrDisutility, rfl⟩ := reads_reals (fun _ _ => rfl) (fun _ _ => rfl) hnonRefundable
  obtain ⟨timeDist, rfl⟩ := reads_dist reads_time (fun _ _ => rfl) htime htimeEnd
  obtain ⟨wtp, rfl⟩ := reads_real (fun _ _ => rfl) hwtp
  obtain ⟨timeValueDist, rfl⟩ := reads_dist (reads_real fun _ _ => rfl) (fun _ _ => rfl)
    htimeValue htimeValueEnd
  obtain ⟨dtdDist, rfl⟩ := reads_dist (reads_real fun _ _ => rfl) (fun _ _ => rfl) hdtd hdtdEnd
  obtain ⟨mean, stdDev, rfl⟩ := reads_reals (fun _ _ => rfl) (fun _ _ => rfl) h₁₆
  exact ⟨⟨start, finish, dow, origin, destination, prefCabin, posDist, channelDist, tripDist,
    stayDist, ffDist, feeProb, feeDisutility, nrProb, nrDisutility, timeDist, wtp, timeValueDist,
    dtdDist, mean, stdDev⟩, by simp [Row.events]⟩

end Reading

/-! ### The amounts in a text -/

section Amounts

variable {K : Type} {a b : Action} {es es' : List (Event Action (Datum K))}

/-- The real numbers given to an action. -/
def amounts (a : Action) (es : List (Event Action (Datum K))) : List K :=
  es.filterMap fun e => if e.action = a then e.datum.amount else none

/-- The real numbers given to an action by the fields of a text. -/
def amountsIn (K : Type) [Field K] (a : Action) (text : List Char) : Option (List K) :=
  match parse (log (datum (K := K))) demandFields skipBlanks text [] with
  | .hit _ _ es => some (amounts a es)
  | _ => none

@[simp] lemma amounts_nil : amounts a ([] : List (Event Action (Datum K))) = [] := rfl

@[simp] lemma amounts_cons (e : Event Action (Datum K)) :
    amounts a (e :: es)
      = (if e.action = a then e.datum.amount else none).toList ++ amounts a es := by
  unfold amounts
  rw [List.filterMap_cons]
  cases if e.action = a then e.datum.amount else none <;> rfl

@[simp] lemma amounts_append : amounts a (es ++ es') = amounts a es ++ amounts a es' :=
  List.filterMap_append

@[simp] lemma amounts_optionEvents (x : Option ℕ) : amounts (K := K) a (optionEvents b x) = [] := by
  cases x <;> simp [optionEvents, Datum.amount]

lemma amounts_map {L : Type} (f : K → L) :
    amounts a (es.map fun e => ⟨e.action, e.datum.map f⟩) = (amounts a es).map f := by
  unfold amounts
  rw [List.filterMap_map, List.map_filterMap]
  congr 1
  funext e
  simp only [Function.comp_apply, Datum.amount_map]
  split_ifs <;> rfl

section Row

variable [Zero K] [LE K]

lemma amounts_pairEvents {α : Type} (left : α → List (Event Action (Datum K)))
    (l : List (α × Amount K)) : amounts a (pairEvents left b l)
      = l.flatMap fun p => amounts a (left p.1 ++ [⟨b, .real p.2⟩]) := by
  simp only [pairEvents, amounts, List.filterMap_flatMap]

lemma flatMap_none {α β : Type} (l : List α) : (l.flatMap fun _ => ([] : List β)) = [] :=
  List.flatMap_eq_nil_iff.mpr fun _ _ => rfl

lemma amounts_storeDTD (R : Row K) : amounts .storeDTD R.events = R.dtdDist.map fun p => p.1.1 := by
  simp [Row.events, CalendarDate.events, ClockTime.events, amounts_pairEvents, Datum.amount,
    flatMap_none, List.map_eq_flatMap]

lemma amounts_storeChannelProbMass (R : Row K) :
    amounts .storeChannelProbMass R.events = R.channelDist.map fun p => p.2.1 := by
  simp [Row.events, CalendarDate.events, ClockTime.events, amounts_pairEvents, Datum.amount,
    flatMap_none, List.map_eq_flatMap]

end Row

variable [Field K]

lemma amountsIn_eq {text r : List Char} {v : Value K}
    (h : Reads datum demandFields skipBlanks text v r es) (a : Action) :
    amountsIn K a text = some (amounts a es) := by
  unfold Reads at h
  unfold amountsIn
  rw [h]

/-- **The amounts** of a text are what they are as rational numbers. -/
lemma amountsIn_cast [CharZero K] {text : List Char} {xs : List ℚ}
    (h : amountsIn ℚ a text = some xs) : amountsIn K a text = some (xs.map Rat.cast) := by
  unfold amountsIn at h
  cases hq : parse (log (datum (K := ℚ))) demandFields skipBlanks text [] with
  | hit v r es =>
    rw [hq] at h
    cases h
    have hread : Reads datum demandFields skipBlanks text v r es := hq
    have hmap : Reads (datum (K := K)) demandFields skipBlanks text (v.map (Rat.castHom K)) r
        (es.map fun e => ⟨e.action, e.datum.map (Rat.castHom K)⟩) :=
      hread.mapValue (Rat.castHom K) fun a v t => by cases a <;> cases v <;> rfl
    rw [amountsIn_eq hmap, amounts_map]
    rfl
  | miss s =>
    rw [hq] at h
    cases h
  | threw e => exact e.elim
  | endless =>
    rw [hq] at h
    cases h

end Amounts

end Trademgen
