import Trademgen.DemandStream

/-!
The staging structure of the demand file parser, and the semantic actions that fill it.

An action reads and writes the structure; it may raise an exception, which goes through the
parser to its caller.
-/

namespace Trademgen

open OrderedMap

/-! ### Dates of the calendar -/

/-- `boost::gregorian::gregorian_calendar::day_number`. -/
def dayNumber (year month day : ℕ) : Date :=
  let a := (14 - month) / 12
  let y := year + 4800 - a
  let m := month + 12 * a - 3
  ((day + (153 * m + 2) / 5 + 365 * y + y / 4 - y / 100 + y / 400 : ℕ) : ℤ) - 32045

def isLeapYear (year : ℕ) : Bool := year % 4 = 0 && (year % 100 ≠ 0 || year % 400 = 0)

def endOfMonthDay (year : ℕ) : ℕ → ℕ
  | 2 => if isLeapYear year then 29 else 28
  | 4 | 6 | 9 | 11 => 30
  | _ => 31

/-- The day of the week as a number, `0` for a Sunday. -/
def dayOfWeek (d : Date) : ℕ := ((d + 1) % 7).toNat

example : dayNumber 2010 2 8 = 2455236 ∧ dayOfWeek 2455236 = 1 := by decide

/-- `stdair::DoWStruct`: the flags of the days of the week, the Monday first. -/
structure DoWStruct where
  flags : List Bool

/-- The flag of a day of the week, `0` for a Sunday. -/
def DoWStruct.getStandardDayOfWeek (dow : DoWStruct) (i : ℕ) : Bool :=
  dow.flags.getD (if i = 0 then 6 else i - 1) false

/-! ### The structure -/

/-- The exceptions of a semantic action. -/
inductive ActionException
  /-- `stdair::CodeDuplicationException`. -/
  | codeDuplication (what : String)
  /-- `boost::gregorian::bad_day_of_month`. -/
  | badDayOfMonth
  deriving DecidableEq

structure DatePeriod where
  begin_ : Date
  end_ : Date

structure DemandStruct (K : Type) [LinearOrder K] where
  dateRange : DatePeriod
  dow : DoWStruct
  origin : String
  destination : String
  prefCabin : String
  demandMean : K
  demandStdDev : K
  changeFeeProb : K
  changeFeeDisutility : K
  nonRefundableProb : K
  nonRefundableDisutility : K
  posProbDist : OMap String K
  channelProbDist : OMap String K
  tripProbDist : OMap String K
  stayProbDist : OMap ℕ K
  ffProbDist : OMap String K
  prefDepTimeProbDist : OMap ℤ K
  minWTP : K
  timeValueProbDist : OMap K K
  dtdProbDist : OMap K K
  -- Staging.
  prefDepDateStart : Date
  prefDepDateEnd : Date
  itYear : ℕ
  itMonth : ℕ
  itDay : ℕ
  itHours : ℕ
  itMinutes : ℕ
  itSeconds : ℕ
  itPosCode : String
  itChannelCode : String
  itTripCode : String
  itStayDuration : ℕ
  itFFCode : String
  itPrefDepTime : Duration
  itTimeValue : K
  itDTD : ℕ

namespace DemandStruct

variable {K : Type} [Field K] [LinearOrder K]

/-- The constructor. The default period, days and cabin are constants of stdair; what the code
leaves unset is empty or zero. -/
def make (defaultDatePeriod : DatePeriod) (defaultDow : DoWStruct) (defaultCabinCode : String) :
    DemandStruct K where
  dateRange := defaultDatePeriod
  dow := defaultDow
  origin := ""
  destination := ""
  prefCabin := defaultCabinCode
  demandMean := 0
  demandStdDev := 0
  changeFeeProb := 0
  changeFeeDisutility := 0
  nonRefundableProb := 0
  nonRefundableDisutility := 0
  posProbDist := OMap.empty
  channelProbDist := OMap.empty
  tripProbDist := OMap.empty
  stayProbDist := OMap.empty
  ffProbDist := OMap.empty
  prefDepTimeProbDist := OMap.empty
  minWTP := 0
  timeValueProbDist := OMap.empty
  dtdProbDist := OMap.empty
  prefDepDateStart := 0
  prefDepDateEnd := 0
  itYear := 0
  itMonth := 0
  itDay := 0
  itHours := 0
  itMinutes := 0
  itSeconds := 0
  itPosCode := ""
  itChannelCode := ""
  itTripCode := ""
  itStayDuration := 0
  itFFCode := ""
  itPrefDepTime := 0
  itTimeValue := 0
  itDTD := 0

def getDate (d : DemandStruct K) : Except ActionException Date :=
  if d.itDay ≤ endOfMonthDay d.itYear d.itMonth then .ok (dayNumber d.itYear d.itMonth d.itDay)
  else .error .badDayOfMonth

def getTime (d : DemandStruct K) : Duration :=
  DateTime.hours d.itHours + DateTime.seconds (60 * d.itMinutes) + DateTime.seconds d.itSeconds

/-! ### Semantic actions -/

def storePrefDepDateRangeStart (d : DemandStruct K) : Except ActionException (DemandStruct K) := do
  let lDate ← d.getDate
  return { d with prefDepDateStart := lDate, itSeconds := 0 }

/-- A date period ends one day after its last day. -/
def storePrefDepDateRangeEnd (d : DemandStruct K) : Except ActionException (DemandStruct K) := do
  let lDate ← d.getDate
  let prefDepDateEnd := lDate + 1
  return { d with
    prefDepDateEnd := prefDepDateEnd
    dateRange := ⟨d.prefDepDateStart, prefDepDateEnd⟩
    itSeconds := 0 }

def storeDow (lDow : String) (d : DemandStruct K) : DemandStruct K :=
  { d with dow := ⟨lDow.toList.map (· = '1')⟩ }
def storeOrigin (lOrigin : String) (d : DemandStruct K) : DemandStruct K :=
  { d with origin := lOrigin }
def storeDestination (lDestination : String) (d : DemandStruct K) : DemandStruct K :=
  { d with destination := lDestination }
def storePrefCabin (lPrefCabin : String) (d : DemandStruct K) : DemandStruct K :=
  { d with prefCabin := lPrefCabin }
def storeDemandMean (iReal : K) (d : DemandStruct K) : DemandStruct K :=
  { d with demandMean := iReal }
def storeDemandStdDev (iReal : K) (d : DemandStruct K) : DemandStruct K :=
  { d with demandStdDev := iReal }
def storeDemandChangeFeeProb (iReal : K) (d : DemandStruct K) : DemandStruct K :=
  { d with changeFeeProb := iReal }
def storeDemandChangeFeeDisutility (iReal : K) (d : DemandStruct K) : DemandStruct K :=
  { d with changeFeeDisutility := iReal }
def storeDemandNonRefundableProb (iReal : K) (d : DemandStruct K) : DemandStruct K :=
  { d with nonRefundableProb := iReal }
def storeDemandNonRefundableDisutility (iReal : K) (d : DemandStruct K) : DemandStruct K :=
  { d with nonRefundableDisutility := iReal }

/-- The insertion of a code with its mass: a code given twice raises an exception. -/
def insertOnce {T : Type} [LinearOrder T] (m : OMap T K) (code : T) (iReal : K) (what : String) :
    Except ActionException (OMap T K) :=
  let (m', hasInsertBeenSuccessfull) := m.insert code iReal
  if hasInsertBeenSuccessfull = false then .error (.codeDuplication what) else .ok m'

def storePosCode (lPosCode : String) (d : DemandStruct K) : DemandStruct K :=
  { d with itPosCode := lPosCode }
def storePosProbMass (iReal : K) (d : DemandStruct K) :
    Except ActionException (DemandStruct K) := do
  let m ← insertOnce d.posProbDist d.itPosCode iReal
    ("The same POS code ('" ++ d.itPosCode ++ "') has probably been given twice")
  return { d with posProbDist := m }

def storeChannelCode (lChannelCode : String) (d : DemandStruct K) : DemandStruct K :=
  { d with itChannelCode := lChannelCode }
def storeChannelProbMass (iReal : K) (d : DemandStruct K) :
    Except ActionException (DemandStruct K) := do
  let m ← insertOnce d.channelProbDist d.itChannelCode iReal
    ("The same channel type code ('" ++ d.itChannelCode ++ "') has probably been given twice")
  return { d with channelProbDist := m }

def storeTripCode (lTripCode : String) (d : DemandStruct K) : DemandStruct K :=
  { d with itTripCode := lTripCode }
def storeTripProbMass (iReal : K) (d : DemandStruct K) :
    Except ActionException (DemandStruct K) := do
  let m ← insertOnce d.tripProbDist d.itTripCode iReal
    ("The same trip type code ('" ++ d.itTripCode ++ "') has probably been given twice")
  return { d with tripProbDist := m }

def storeStayCode (iInteger : ℕ) (d : DemandStruct K) : DemandStruct K :=
  { d with itStayDuration := iInteger }
def storeStayProbMass (iReal : K) (d : DemandStruct K) :
    Except ActionException (DemandStruct K) := do
  let m ← insertOnce d.stayProbDist d.itStayDuration iReal
    ("The same stay duration ('" ++ toString d.itStayDuration
      ++ "') has probably been given twice")
  return { d with stayProbDist := m }

def storeFFCode (lFFCode : String) (d : DemandStruct K) : DemandStruct K :=
  { d with itFFCode := lFFCode }
def storeFFProbMass (iReal : K) (d : DemandStruct K) :
    Except ActionException (DemandStruct K) := do
  let m ← insertOnce d.ffProbDist d.itFFCode iReal
    ("The same Frequent Flyer code ('" ++ d.itFFCode ++ "') has probably been given twice")
  return { d with ffProbDist := m }

def storePrefDepTime (d : DemandStruct K) : DemandStruct K :=
  { d with itPrefDepTime := d.getTime, itMinutes := 0, itSeconds := 0 }
def storePrefDepTimeProbMass (iReal : K) (d : DemandStruct K) : DemandStruct K :=
  let lIntDuration := d.itPrefDepTime / 1000000
  { d with prefDepTimeProbDist := (d.prefDepTimeProbDist.insert lIntDuration iReal).1 }

def storeWTP (iReal : K) (d : DemandStruct K) : DemandStruct K := { d with minWTP := iReal }

def storeTimeValue (iReal : K) (d : DemandStruct K) : DemandStruct K :=
  { d with itTimeValue := iReal }
def storeTimeValueProbMass (iReal : K) (d : DemandStruct K) : DemandStruct K :=
  { d with timeValueProbDist := (d.timeValueProbDist.insert d.itTimeValue iReal).1 }

def storeDTD (iInteger : ℕ) (d : DemandStruct K) : DemandStruct K := { d with itDTD := iInteger }
def storeDTDProbMass (iReal : K) (d : DemandStruct K) : DemandStruct K :=
  let lDTDFloat := 0 - (d.itDTD : K)
  { d with dtdProbDist := (d.dtdProbDist.insert lDTDFloat iReal).1 }

/-- What `doEndDemand` does to the structure once the demand is created. -/
def cleanLists (d : DemandStruct K) : DemandStruct K :=
  { d with
    posProbDist := OMap.empty
    channelProbDist := OMap.empty
    tripProbDist := OMap.empty
    stayProbDist := OMap.empty
    ffProbDist := OMap.empty
    prefDepTimeProbDist := OMap.empty
    timeValueProbDist := OMap.empty
    dtdProbDist := OMap.empty }

/-! ### The arrival pattern of a row -/

/-- The arrival pattern read from a list of pairs of days to departure and probabilities. -/
def storeDTDDist (pairs : List (ℕ × K)) (d : DemandStruct K) : DemandStruct K :=
  pairs.foldl (fun d p => storeDTDProbMass p.2 (storeDTD p.1 d)) d

lemma storeDTDDist_dtdProbDist (pairs : List (ℕ × K)) {d : DemandStruct K}
    (hd : d.dtdProbDist = OMap.empty) :
    (d.storeDTDDist pairs).dtdProbDist = OMap.ofPairs (pairs.map fun p => (-(p.1 : K), p.2)) := by
  induction pairs using List.reverseRecOn with
  | nil => exact hd
  | append_singleton l p ih =>
    rw [List.map_append, List.map_singleton, OMap.ofPairs_append, ← ih]
    simp [storeDTDDist, storeDTDProbMass, storeDTD]

end DemandStruct

end Trademgen
