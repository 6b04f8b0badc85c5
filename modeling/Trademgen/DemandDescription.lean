import Trademgen.DemandRow

/-!
What a row makes of the staging structure.

The description is the part of the structure that is read when the streams are created. A row
that starts from empty maps, and from no minutes and no seconds, decides all of it by itself.
-/

set_option linter.unusedSectionVars false

namespace Trademgen

open Spirit OrderedMap

variable {K : Type} [Field K] [LinearOrder K] [FloorRing K]

/-! ### Descriptions -/

/-- What `createDemandCharacteristics` is given. -/
structure Description (K : Type) [LinearOrder K] where
  dateRange : DatePeriod
  dow : DoWStruct
  origin : String
  destination : String
  prefCabin : String
  demandMean : K
  demandStdDev : K
  changeFeeProb : K
  changeFeeDisutility : K
  nonRefundableProb : K
  nonRefundableDisutility : K
  posProbDist : OMap String K
  channelProbDist : OMap String K
  tripProbDist : OMap String K
  stayProbDist : OMap ℕ K
  ffProbDist : OMap String K
  prefDepTimeProbDist : OMap ℤ K
  minWTP : K
  timeValueProbDist : OMap K K
  dtdProbDist : OMap K K

def DemandStruct.description (d : DemandStruct K) : Description K where
  dateRange := d.dateRange
  dow := d.dow
  origin := d.origin
  destination := d.destination
  prefCabin := d.prefCabin
  demandMean := d.demandMean
  demandStdDev := d.demandStdDev
  changeFeeProb := d.changeFeeProb
  changeFeeDisutility := d.changeFeeDisutility
  nonRefundableProb := d.nonRefundableProb
  nonRefundableDisutility := d.nonRefundableDisutility
  posProbDist := d.posProbDist
  channelProbDist := d.channelProbDist
  tripProbDist := d.tripProbDist
  stayProbDist := d.stayProbDist
  ffProbDist := d.ffProbDist
  prefDepTimeProbDist := d.prefDepTimeProbDist
  minWTP := d.minWTP
  timeValueProbDist := d.timeValueProbDist
  dtdProbDist := d.dtdProbDist

/-- A structure with a description. -/
def Description.demand (x : Description K) : DemandStruct K :=
  { DemandStruct.make x.dateRange x.dow x.prefCabin with
    origin := x.origin
    destination := x.destination
    demandMean := x.demandMean
    demandStdDev := x.demandStdDev
    changeFeeProb := x.changeFeeProb
    changeFeeDisutility := x.changeFeeDisutility
    nonRefundableProb := x.nonRefundableProb
    nonRefundableDisutility := x.nonRefundableDisutility
    posProbDist := x.posProbDist
    channelProbDist := x.channelProbDist
    tripProbDist := x.tripProbDist
    stayProbDist := x.stayProbDist
    ffProbDist := x.ffProbDist
    prefDepTimeProbDist := x.prefDepTimeProbDist
    minWTP := x.minWTP
    timeValueProbDist := x.timeValueProbDist
    dtdProbDist := x.dtdProbDist }

section Creation

variable {G Q : Type} [Libm K] [RandomGeneration K G] [EventQueue K Q]

/-- **The creation** of the streams reads the description, and nothing else of the structure. -/
theorem createDemandCharacteristics_description (n : ℕ) (d : DemandStruct K) (w : World K G Q) :
    DemandManager.createDemandCharacteristics n d w
      = DemandManager.createDemandCharacteristics n d.description.demand w := by
  have hloop (n : ℕ) (x : Date) : DemandManager.iterateDates (G := G) (Q := Q) d n x
      = DemandManager.iterateDates d.description.demand n x := by
    induction n generalizing x with
    | zero => rfl
    | succ n ih =>
      rw [DemandManager.iterateDates, DemandManager.iterateDates, ih]
      rfl
  exact congrFun (hloop n d.dateRange.begin_) w

end Creation

/-! ### What a row says -/

def CalendarDate.getDate (x : CalendarDate) : Except ActionException Date :=
  if x.day ≤ endOfMonthDay x.year x.month then .ok (dayNumber x.year x.month x.day)
  else .error .badDayOfMonth

/-- The time in seconds since midnight. -/
def ClockTime.toSeconds (x : ClockTime) : ℤ :=
  3600 * x.hours + 60 * (x.minutes.getD 0 : ℕ) + (x.seconds.getD 0 : ℕ)

/-- The days to departure, once they are an integer. -/
def wholeDays (x : K) : ℕ := natOf (Value.real x)

/-- The pairs of a distribution that gives no code twice. -/
def insertAllOnce {T : Type} [LinearOrder T] (what : T → String) (m : OMap T K)
    (l : List (T × Amount K)) : Except ActionException (OMap T K) :=
  l.foldlM (fun m p => DemandStruct.insertOnce m p.1 p.2.1 (what p.1)) m

def posGivenTwice (x : String) : String :=
  "The same POS code ('" ++ x ++ "') has probably been given twice"
def channelGivenTwice (x : String) : String :=
  "The same channel type code ('" ++ x ++ "') has probably been given twice"
def tripGivenTwice (x : String) : String :=
  "The same trip type code ('" ++ x ++ "') has probably been given twice"
def stayGivenTwice (x : ℕ) : String :=
  "The same stay duration ('" ++ toString x ++ "') has probably been given twice"
def ffGivenTwice (x : String) : String :=
  "The same Frequent Flyer code ('" ++ x ++ "') has probably been given twice"

namespace Row

/-- The pairs, at the values where the maps are to hold them. -/
def prefDepTimeKnots (R : Row K) : List (ℤ × K) :=
  R.prefDepTimeDist.map fun p => (p.1.toSeconds, p.2.1)
def timeValueKnots (R : Row K) : List (K × K) := R.timeValueDist.map fun p => (p.1.1, p.2.1)
def dtdKnots (R : Row K) : List (K × K) := R.dtdDist.map fun p => (-p.1.1, p.2.1)

/-- The pairs of the arrival pattern as they are stored. -/
def wholeDtdKnots (R : Row K) : List (K × K) :=
  R.dtdDist.map fun p => (-(wholeDays p.1.1 : K), p.2.1)

/-- The description that a row alone decides, or its exception. -/
def describe (R : Row K) : Except ActionException (Description K) := do
  let lStart ← R.prefDepDateStart.getDate
  let lEnd ← R.prefDepDateEnd.getDate
  let posProbDist ← insertAllOnce posGivenTwice OMap.empty R.posDist
  let channelProbDist ← insertAllOnce channelGivenTwice OMap.empty R.channelDist
  let tripProbDist ← insertAllOnce tripGivenTwice OMap.empty R.tripDist
  let stayProbDist ← insertAllOnce stayGivenTwice OMap.empty R.stayDist
  let ffProbDist ← insertAllOnce ffGivenTwice OMap.empty R.ffDist
  return {
    dateRange := ⟨lStart, lEnd + 1⟩
    dow := ⟨R.dow.toList.map (· = '1')⟩
    origin := R.origin
    destination := R.destination
    prefCabin := R.prefCabin
    demandMean := R.demandMean
    demandStdDev := R.demandStdDev
    changeFeeProb := R.changeFeeProb
    changeFeeDisutility := R.changeFeeDisutility
    nonRefundableProb := R.nonRefundableProb
    nonRefundableDisutility := R.nonRefundableDisutility
    posProbDist := posProbDist
    channelProbDist := channelProbDist
    tripProbDist := tripProbDist
    stayProbDist := stayProbDist
    ffProbDist := ffProbDist
    prefDepTimeProbDist := OMap.ofPairs R.prefDepTimeKnots
    minWTP := R.wtp
    timeValueProbDist := OMap.ofPairs R.timeValueKnots
    dtdProbDist := OMap.ofPairs R.wholeDtdKnots }

end Row

/-! ### Filling the structure -/

/-- The actions of a trace, one after the other. -/
def fill (es : List (Event Action (Datum K))) (d : DemandStruct K) :
    Except ActionException (DemandStruct K) :=
  es.foldlM (fun d e => enter e.action e.datum d) d

@[simp] lemma fill_nil (d : DemandStruct K) : fill [] d = .ok d := rfl

@[simp] lemma fill_cons (e : Event Action (Datum K)) (es : List (Event Action (Datum K)))
    (d : DemandStruct K) : fill (e :: es) d = enter e.action e.datum d >>= fill es := rfl

lemma fill_append (es es' : List (Event Action (Datum K))) (d : DemandStruct K) :
    fill (es ++ es') d = fill es d >>= fill es' := by
  unfold fill
  rw [List.foldlM_append]

section Binds

variable {α β γ : Type} {ε : Type}

@[simp] lemma bind_ok_eq (a : α) (f : α → Except ε β) : (Except.ok a >>= f) = f a := rfl

lemma bind_map_eq (x : Except ε α) (f : α → β) (g : β → Except ε γ) :
    (x.map f >>= g) = x >>= fun a => g (f a) := by
  cases x <;> rfl

lemma bind_pure_eq (x : Except ε α) (f : α → β) : (x >>= fun a => pure (f a)) = x.map f := by
  cases x <;> rfl

/-- The same first part, on one side with a change of its result. -/
lemma map_bind_congr {δ : Type} {x : Except ε α} {f : α → β} {g : β → Except ε γ}
    {k : α → Except ε δ} {ζ : Type} {h : γ → ζ} {h' : δ → ζ}
    (hgk : ∀ a, (g (f a)).map h = (k a).map h') : (x.map f >>= g).map h = (x >>= k).map h' := by
  cases x with
  | error e => rfl
  | ok a => exact hgk a

lemma bind_eq_ok_iff {x : Except ε α} {f : α → Except ε β} {b : β} :
    x >>= f = .ok b ↔ ∃ a, x = .ok a ∧ f a = .ok b := by
  cases x with
  | error e => simp [bind, Except.bind]
  | ok a => simp

lemma map_bind_eq (x : Except ε α) (f : α → Except ε β) (g : β → γ) :
    (x >>= f).map g = x >>= fun a => (f a).map g := by
  cases x <;> rfl

end Binds

/-- The pairs that are inserted are those of the list. -/
lemma insertAllOnce_perm {T : Type} [LinearOrder T] {what : T → String} {l : List (T × Amount K)} :
    ∀ {m m' : OMap T K}, insertAllOnce what m l = .ok m' →
      m'.pairs.Perm (l.map (fun p => (p.1, p.2.1)) ++ m.pairs) := by
  induction l with
  | nil =>
    intro m m' h
    cases h
    exact .refl _
  | cons p l ih =>
    intro m m' h
    unfold insertAllOnce at h
    rw [List.foldlM_cons] at h
    obtain ⟨m₁, hm₁, hrest⟩ := bind_eq_ok_iff.mp h
    unfold DemandStruct.insertOnce at hm₁
    dsimp only at hm₁
    split_ifs at hm₁ with hnew
    cases hm₁
    have hkey : p.1 ∉ m.keys := by simpa [OMap.insert] using hnew
    have hone : (l.map (fun p => (p.1, p.2.1)) ++ (m.insert p.1 p.2.1).1.pairs).Perm
        (l.map (fun p => (p.1, p.2.1)) ++ (p.1, p.2.1) :: m.pairs) :=
      (OMap.insert_pairs_perm hkey p.2.1).append_left _
    exact (ih hrest).trans (hone.trans List.perm_middle)

/-- The parts of a row that is described. -/
lemma Row.describe_eq_ok {R : Row K} {x : Description K} (h : R.describe = .ok x) :
    (∃ lStart lEnd, R.prefDepDateStart.getDate = .ok lStart ∧
      R.prefDepDateEnd.getDate = .ok lEnd ∧ x.dateRange = ⟨lStart, lEnd + 1⟩) ∧
    insertAllOnce posGivenTwice OMap.empty R.posDist = .ok x.posProbDist ∧
    insertAllOnce channelGivenTwice OMap.empty R.channelDist = .ok x.channelProbDist ∧
    insertAllOnce tripGivenTwice OMap.empty R.tripDist = .ok x.tripProbDist ∧
    insertAllOnce stayGivenTwice OMap.empty R.stayDist = .ok x.stayProbDist ∧
    insertAllOnce ffGivenTwice OMap.empty R.ffDist = .ok x.ffProbDist ∧
    x.dow = ⟨R.dow.toList.map (· = '1')⟩ ∧
    x.prefDepTimeProbDist = OMap.ofPairs R.prefDepTimeKnots ∧
    x.timeValueProbDist = OMap.ofPairs R.timeValueKnots ∧
    x.dtdProbDist = OMap.ofPairs R.wholeDtdKnots := by
  unfold Row.describe at h
  obtain ⟨lStart, hstart, h₁⟩ := bind_eq_ok_iff.mp h
  obtain ⟨lEnd, hend, h₂⟩ := bind_eq_ok_iff.mp h₁
  obtain ⟨pos, hpos, h₃⟩ := bind_eq_ok_iff.mp h₂
  obtain ⟨channel, hchannel, h₄⟩ := bind_eq_ok_iff.mp h₃
  obtain ⟨trip, htrip, h₅⟩ := bind_eq_ok_iff.mp h₄
  obtain ⟨stay, hstay, h₆⟩ := bind_eq_ok_iff.mp h₅
  obtain ⟨ff, hff, hx⟩ := bind_eq_ok_iff.mp h₆
  cases hx
  exact ⟨⟨lStart, lEnd, hstart, hend, rfl⟩, hpos, hchannel, htrip, hstay, hff, rfl, rfl, rfl, rfl⟩

/-- The categorical maps hold the pairs of their fields. -/
lemma Row.describe_pairs {R : Row K} {x : Description K} (h : R.describe = .ok x) :
    x.posProbDist.pairs.Perm (R.posDist.map fun p => (p.1, p.2.1)) ∧
    x.channelProbDist.pairs.Perm (R.channelDist.map fun p => (p.1, p.2.1)) ∧
    x.tripProbDist.pairs.Perm (R.tripDist.map fun p => (p.1, p.2.1)) ∧
    x.stayProbDist.pairs.Perm (R.stayDist.map fun p => (p.1, p.2.1)) ∧
    x.ffProbDist.pairs.Perm (R.ffDist.map fun p => (p.1, p.2.1)) := by
  obtain ⟨-, hpos, hchannel, htrip, hstay, hff, -⟩ := Row.describe_eq_ok h
  have hperm {T : Type} [LinearOrder T] {what : T → String} {l : List (T × Amount K)}
      {m : OMap T K} (hm : insertAllOnce what OMap.empty l = .ok m) :
      m.pairs.Perm (l.map fun p => (p.1, p.2.1)) := by
    simpa [OMap.empty] using insertAllOnce_perm hm
  exact ⟨hperm hpos, hperm hchannel, hperm htrip, hperm hstay, hperm hff⟩

/-- **The pairs** of a distribution, one step of the structure for each. What a step leaves in the
staging fields is that of the last pair. -/
lemma fill_pairEvents {α S U : Type} (left : α → List (Event Action (Datum K))) {b : Action}
    {f : S → U → DemandStruct K} {u : α → U} {g : S → α × Amount K → Except ActionException S}
    (hg : ∀ m w p, fill (left p.1 ++ [⟨b, .real p.2⟩]) (f m w)
      = (g m p).map fun m' => f m' (u p.1)) (l : List (α × Amount K)) (m : S) (w : U) :
    fill (pairEvents left b l) (f m w)
      = (l.foldlM g m).map fun m' => f m' ((l.map fun p => u p.1).getLastD w) := by
  induction l generalizing m w with
  | nil => rfl
  | cons p l ih =>
    change fill (left p.1 ++ [⟨b, .real p.2⟩] ++ pairEvents left b l) (f m w) = _
    rw [fill_append, hg, bind_map_eq, List.foldlM_cons, map_bind_eq]
    congr 1
    funext m'
    rw [ih, List.map_cons, List.getLastD_cons]

/-- The pairs of codes and masses. -/
lemma fill_codes {T : Type} [LinearOrder T] {left : T → Datum K} {a b : Action}
    {what : T → String} {f : OMap T K → T → DemandStruct K}
    (hcode : ∀ m w x, enter a (left x) (f m w) = .ok (f m x))
    (hshare : ∀ m x y, enter b (.real y) (f m x)
      = (DemandStruct.insertOnce m x y (what x)).map fun m' => f m' x)
    (l : List (T × Amount K)) (m : OMap T K) (w : T) :
    fill (pairEvents (fun x => [⟨a, left x⟩]) b l) (f m w)
      = (insertAllOnce what m l).map fun m' => f m' ((l.map fun p => p.1).getLastD w) := by
  refine fill_pairEvents _ (f := f) (u := id)
    (g := fun m p => DemandStruct.insertOnce m p.1 p.2.1 (what p.1)) (fun m w p => ?_) l m w
  rw [List.singleton_append, fill_cons, hcode, bind_ok_eq, fill_cons, hshare, bind_map_eq]
  exact bind_pure_eq _ _

/-- The pairs of a map that is inserted into without a test. -/
lemma foldlM_insert {α T : Type} [LinearOrder T] (key : α → T) (l : List (α × Amount K))
    (m : OMap T K) :
    l.foldlM (fun m p => (.ok (m.insert (key p.1) p.2.1).1 : Except ActionException (OMap T K))) m
      = .ok ((l.map fun p => (key p.1, p.2.1)).foldl (fun m p => (m.insert p.1 p.2).1) m) := by
  induction l generalizing m with
  | nil => rfl
  | cons p l ih =>
    rw [List.foldlM_cons, bind_ok_eq, ih]
    rfl

/-! ### The fields -/

section Fields

variable (d : DemandStruct K)

lemma fill_prefDepDateStart (x : CalendarDate) :
    fill (x.events .storePrefDepDateRangeStart) d = x.getDate.map fun lDate =>
      { d with
        itYear := x.year
        itMonth := x.month
        itDay := x.day
        prefDepDateStart := lDate
        itSeconds := 0 } := by
  simp only [CalendarDate.events, fill_cons, enter, store, Datum.value, natOf,
    bind_ok_eq, DemandStruct.storePrefDepDateRangeStart, DemandStruct.getDate,
    CalendarDate.getDate]
  split_ifs <;> rfl

lemma fill_prefDepDateEnd (x : CalendarDate) :
    fill (x.events .storePrefDepDateRangeEnd) d = x.getDate.map fun lDate =>
      { d with
        itYear := x.year
        itMonth := x.month
        itDay := x.day
        prefDepDateEnd := lDate + 1
        dateRange := ⟨d.prefDepDateStart, lDate + 1⟩
        itSeconds := 0 } := by
  simp only [CalendarDate.events, fill_cons, enter, store, Datum.value, natOf,
    bind_ok_eq, DemandStruct.storePrefDepDateRangeEnd, DemandStruct.getDate,
    CalendarDate.getDate]
  split_ifs <;> rfl

lemma slice_toList (s : String) : slice s.toList [] = s := by
  simp [slice]

lemma fill_words (dow origin destination prefCabin : String) :
    fill [⟨.storeDow, .word dow⟩, ⟨.storeOrigin, .word origin⟩,
        ⟨.storeDestination, .word destination⟩, ⟨.storePrefCabin, .word prefCabin⟩] d =
      .ok { d with
        dow := ⟨dow.toList.map (· = '1')⟩
        origin := origin
        destination := destination
        prefCabin := prefCabin } := by
  simp only [fill_cons, fill_nil, enter, store, Datum.text, slice_toList, bind_ok_eq]
  rfl

lemma fill_posDist (l : List (String × Amount K)) :
    fill (pairEvents (fun x => [⟨.storePosCode, .word x⟩]) .storePosProbMass l) d =
      (insertAllOnce posGivenTwice d.posProbDist l).map fun m =>
        { d with
          posProbDist := m
          itPosCode := (l.map fun p => p.1).getLastD d.itPosCode } := by
  refine fill_codes (f := fun m w => { d with posProbDist := m, itPosCode := w })
    (fun m w x => ?_) (fun m x y => bind_pure_eq _ _) l _ _
  · simp only [enter, store, Datum.text, slice_toList]
    rfl

lemma fill_channelDist (l : List (String × Amount K)) :
    fill (pairEvents (fun x => [⟨.storeChannelCode, .word x⟩]) .storeChannelProbMass l) d =
      (insertAllOnce channelGivenTwice d.channelProbDist l).map fun m =>
        { d with
          channelProbDist := m
          itChannelCode := (l.map fun p => p.1).getLastD d.itChannelCode } := by
  refine fill_codes (f := fun m w => { d with channelProbDist := m, itChannelCode := w })
    (fun m w x => ?_) (fun m x y => bind_pure_eq _ _) l _ _
  · simp only [enter, store, Datum.text, slice_toList]
    rfl

lemma fill_tripDist (l : List (String × Amount K)) :
    fill (pairEvents (fun x => [⟨.storeTripCode, .word x⟩]) .storeTripProbMass l) d =
      (insertAllOnce tripGivenTwice d.tripProbDist l).map fun m =>
        { d with
          tripProbDist := m
          itTripCode := (l.map fun p => p.1).getLastD d.itTripCode } := by
  refine fill_codes (f := fun m w => { d with tripProbDist := m, itTripCode := w })
    (fun m w x => ?_) (fun m x y => bind_pure_eq _ _) l _ _
  · simp only [enter, store, Datum.text, slice_toList]
    rfl

lemma fill_stayDist (l : List (ℕ × Amount K)) :
    fill (pairEvents (fun x => [⟨.storeStayCode, .nat x⟩]) .storeStayProbMass l) d =
      (insertAllOnce stayGivenTwice d.stayProbDist l).map fun m =>
        { d with
          stayProbDist := m
          itStayDuration := (l.map fun p => p.1).getLastD d.itStayDuration } := by
  refine fill_codes (f := fun m w => { d with stayProbDist := m, itStayDuration := w })
    (fun m w x => ?_) (fun m x y => bind_pure_eq _ _) l _ _
  · rfl

lemma fill_ffDist (l : List (String × Amount K)) :
    fill (pairEvents (fun x => [⟨.storeFFCode, .word x⟩]) .storeFFProbMass l) d =
      (insertAllOnce ffGivenTwice d.ffProbDist l).map fun m =>
        { d with
          ffProbDist := m
          itFFCode := (l.map fun p => p.1).getLastD d.itFFCode } := by
  refine fill_codes (f := fun m w => { d with ffProbDist := m, itFFCode := w })
    (fun m w x => ?_) (fun m x y => bind_pure_eq _ _) l _ _
  · simp only [enter, store, Datum.text, slice_toList]
    rfl

lemma fill_fees (changeFeeProb changeFeeDisutility nonRefundableProb nonRefundableDisutility : K) :
    fill [⟨.storeDemandChangeFeeProb, .real changeFeeProb⟩,
        ⟨.storeDemandChangeFeeDisutility, .real changeFeeDisutility⟩,
        ⟨.storeDemandNonRefundableProb, .real nonRefundableProb⟩,
        ⟨.storeDemandNonRefundableDisutility, .real nonRefundableDisutility⟩] d =
      .ok { d with
        changeFeeProb := changeFeeProb
        changeFeeDisutility := changeFeeDisutility
        nonRefundableProb := nonRefundableProb
        nonRefundableDisutility := nonRefundableDisutility } := rfl

lemma getTime_eq :
    d.getTime = (3600 * d.itHours + 60 * d.itMinutes + d.itSeconds) * 1000000 := by
  simp only [DemandStruct.getTime, DateTime.hours, DateTime.seconds]
  ring

/-- **The time** that is stored is the one written, if no minutes and no seconds are left from
before; none are left after it. -/
lemma fill_time (hm : d.itMinutes = 0) (hs : d.itSeconds = 0) (x : ClockTime) :
    fill x.events d =
      .ok { d with itHours := x.hours, itPrefDepTime := x.toSeconds * 1000000 } := by
  have hclean : d = { d with itMinutes := 0, itSeconds := 0 } := by
    cases d
    simp only at hm hs
    rw [hm, hs]
  have hassign : fill x.events d = .ok (DemandStruct.storePrefDepTime { d with
      itHours := x.hours
      itMinutes := x.minutes.getD 0
      itSeconds := x.seconds.getD 0 }) := by
    obtain ⟨hours, minutes, seconds⟩ := x
    rw [hclean]
    cases minutes <;> cases seconds <;> rfl
  rw [hassign, DemandStruct.storePrefDepTime, getTime_eq, hm, hs]
  rfl

lemma fill_prefDepTimePair (hm : d.itMinutes = 0) (hs : d.itSeconds = 0) (x : ClockTime) (y : K) :
    fill (x.events ++ [⟨.storePrefDepTimeProbMass, .real y⟩]) d =
      .ok { d with
        itHours := x.hours
        itPrefDepTime := x.toSeconds * 1000000
        prefDepTimeProbDist := (d.prefDepTimeProbDist.insert x.toSeconds y).1 } := by
  rw [fill_append, fill_time d hm hs, bind_ok_eq, fill_cons, enter, store,
    DemandStruct.storePrefDepTimeProbMass]
  simp only [Int.mul_ediv_cancel _ (show (1000000 : ℤ) ≠ 0 by decide)]
  rfl

/-- What the last pair leaves in the staging fields. -/
def lastTime (l : List (ClockTime × Amount K)) (w : ℕ × Duration) : ℕ × Duration :=
  (l.map fun p => (p.1.hours, p.1.toSeconds * 1000000)).getLastD w

lemma fill_prefDepTimeDist (hm : d.itMinutes = 0) (hs : d.itSeconds = 0)
    (l : List (ClockTime × Amount K)) :
    fill (pairEvents ClockTime.events .storePrefDepTimeProbMass l) d =
      .ok { d with
        itHours := (lastTime l (d.itHours, d.itPrefDepTime)).1
        itPrefDepTime := (lastTime l (d.itHours, d.itPrefDepTime)).2
        prefDepTimeProbDist := (l.map fun p => (p.1.toSeconds, p.2.1)).foldl
          (fun m p => (m.insert p.1 p.2).1) d.prefDepTimeProbDist } := by
  have h := fill_pairEvents ClockTime.events (b := .storePrefDepTimeProbMass)
    (f := fun m (w : ℕ × Duration) =>
      { d with prefDepTimeProbDist := m, itHours := w.1, itPrefDepTime := w.2 })
    (u := fun x => (x.hours, x.toSeconds * 1000000))
    (g := fun m p => .ok (m.insert p.1.toSeconds p.2.1).1)
    (fun m w p => fill_prefDepTimePair
      { d with prefDepTimeProbDist := m, itHours := w.1, itPrefDepTime := w.2 } hm hs p.1 p.2) l
    d.prefDepTimeProbDist (d.itHours, d.itPrefDepTime)
  rwa [foldlM_insert] at h

lemma fill_wtp (x : K) : fill [⟨.storeWTP, .real x⟩] d = .ok { d with minWTP := x } := rfl

lemma fill_demandParams (mean stdDev : K) :
    fill [⟨.storeDemandMean, .real mean⟩, ⟨.storeDemandStdDev, .real stdDev⟩] d =
      .ok { d with demandMean := mean, demandStdDev := stdDev } := rfl

lemma fill_timeValueDist (l : List (Amount K × Amount K)) :
    fill (pairEvents (fun x => [⟨.storeTimeValue, .real x.1⟩]) .storeTimeValueProbMass l) d =
      .ok { d with
        timeValueProbDist := (l.map fun p => (p.1.1, p.2.1)).foldl
          (fun m p => (m.insert p.1 p.2).1) d.timeValueProbDist
        itTimeValue := (l.map fun p => p.1.1).getLastD d.itTimeValue } := by
  have h := fill_pairEvents (fun x : Amount K => [⟨.storeTimeValue, .real x.1⟩])
    (b := .storeTimeValueProbMass)
    (f := fun m w => { d with timeValueProbDist := m, itTimeValue := w }) (u := fun x => x.1)
    (g := fun m p => .ok (m.insert p.1.1 p.2.1).1) (fun m w p => rfl) l d.timeValueProbDist
    d.itTimeValue
  rwa [foldlM_insert] at h

lemma fill_dtdDist (l : List (Amount K × Amount K)) :
    fill (pairEvents (fun x => [⟨.storeDTD, .real x.1⟩]) .storeDTDProbMass l) d =
      .ok { d with
        dtdProbDist := (l.map fun p => (-(wholeDays p.1.1 : K), p.2.1)).foldl
          (fun m p => (m.insert p.1 p.2).1) d.dtdProbDist
        itDTD := (l.map fun p => wholeDays p.1.1).getLastD d.itDTD } := by
  have h := fill_pairEvents (fun x : Amount K => [⟨.storeDTD, .real x.1⟩])
    (b := .storeDTDProbMass)
    (f := fun m w => { d with dtdProbDist := m, itDTD := w }) (u := fun x => wholeDays x.1)
    (g := fun m p => .ok (m.insert (-(wholeDays p.1.1 : K)) p.2.1).1) (fun m w p => ?_) l
    d.dtdProbDist d.itDTD
  · rwa [foldlM_insert fun x : Amount K => -(wholeDays x.1 : K)] at h
  · rw [← zero_sub]
    rfl

end Fields

/-! ### The whole row -/

/-- Nothing that a row adds to or may leave as it is holds anything from before. -/
structure DemandStruct.Clean (d : DemandStruct K) : Prop where
  posProbDist : d.posProbDist = OMap.empty
  channelProbDist : d.channelProbDist = OMap.empty
  tripProbDist : d.tripProbDist = OMap.empty
  stayProbDist : d.stayProbDist = OMap.empty
  ffProbDist : d.ffProbDist = OMap.empty
  prefDepTimeProbDist : d.prefDepTimeProbDist = OMap.empty
  timeValueProbDist : d.timeValueProbDist = OMap.empty
  dtdProbDist : d.dtdProbDist = OMap.empty
  itMinutes : d.itMinutes = 0
  itSeconds : d.itSeconds = 0

lemma DemandStruct.clean_make (defaultDatePeriod : DatePeriod) (defaultDow : DoWStruct)
    (defaultCabinCode : String) :
    (DemandStruct.make defaultDatePeriod defaultDow defaultCabinCode : DemandStruct K).Clean :=
  ⟨rfl, rfl, rfl, rfl, rfl, rfl, rfl, rfl, rfl, rfl⟩

lemma DemandStruct.clean_cleanLists {d : DemandStruct K} (hm : d.itMinutes = 0)
    (hs : d.itSeconds = 0) : d.cleanLists.Clean :=
  ⟨rfl, rfl, rfl, rfl, rfl, rfl, rfl, rfl, hm, hs⟩

/-- **A row** that starts from a clean structure leaves its own description, and no minutes and no
seconds; or it throws its own exception. -/
theorem fill_events {d : DemandStruct K} (hd : d.Clean) (R : Row K) :
    (fill R.events d).map (fun d' => (d'.description, d'.itMinutes, d'.itSeconds))
      = R.describe.map fun x => (x, 0, 0) := by
  unfold Row.events Row.describe
  simp only [fill_append, bind_assoc]
  rw [fill_prefDepDateStart]
  refine map_bind_congr fun lStart => ?_
  rw [fill_prefDepDateEnd]
  refine map_bind_congr fun lEnd => ?_
  rw [fill_words, bind_ok_eq, fill_posDist]
  dsimp only
  rw [hd.posProbDist]
  refine map_bind_congr fun posProbDist => ?_
  rw [fill_channelDist]
  dsimp only
  rw [hd.channelProbDist]
  refine map_bind_congr fun channelProbDist => ?_
  rw [fill_tripDist]
  dsimp only
  rw [hd.tripProbDist]
  refine map_bind_congr fun tripProbDist => ?_
  rw [fill_stayDist]
  dsimp only
  rw [hd.stayProbDist]
  refine map_bind_congr fun stayProbDist => ?_
  rw [fill_ffDist]
  dsimp only
  rw [hd.ffProbDist]
  refine map_bind_congr fun ffProbDist => ?_
  rw [fill_fees, bind_ok_eq]
  dsimp only
  rw [fill_prefDepTimeDist]
  · rw [bind_ok_eq, fill_wtp, bind_ok_eq, fill_timeValueDist, bind_ok_eq, fill_dtdDist, bind_ok_eq,
      fill_demandParams]
    dsimp only
    rw [hd.prefDepTimeProbDist, hd.timeValueProbDist, hd.dtdProbDist, hd.itMinutes]
    rfl
  · exact hd.itMinutes
  · rfl

end Trademgen
