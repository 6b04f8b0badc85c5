import Trademgen.DemandManager
import Trademgen.Lib.Spirit

/-!
The grammar of the demand files, and their parser.

The rules are those of the source, under its names. What the parser does not read stays in the
text, and nothing looks at it.
-/

set_option linter.unusedSectionVars false

namespace Trademgen

open Spirit Spirit.Grammar

/-! ### Semantic actions -/

/-- The actions of the grammar. Those on a number are given its value, the others the places where
the match starts and ends. -/
inductive Action
  | assignYear | assignMonth | assignDay | assignHours | assignMinutes | assignSeconds
  | storePrefDepDateRangeStart | storePrefDepDateRangeEnd | storeDow
  | storeOrigin | storeDestination | storePrefCabin
  | storePosCode | storePosProbMass
  | storeChannelCode | storeChannelProbMass
  | storeTripCode | storeTripProbMass
  | storeStayCode | storeStayProbMass
  | storeFFCode | storeFFProbMass
  | storeDemandChangeFeeProb | storeDemandChangeFeeDisutility
  | storeDemandNonRefundableProb | storeDemandNonRefundableDisutility
  | storePrefDepTime | storePrefDepTimeProbMass
  | storeWTP
  | storeTimeValue | storeTimeValueProbMass
  | storeDTD | storeDTDProbMass
  | storeDemandMean | storeDemandStdDev
  | doEndDemand
  deriving DecidableEq

section Actions

variable {K : Type} [Field K] [LinearOrder K] [FloorRing K]

/-- The characters between two places. -/
def slice (iStr iStrEnd : List Char) : String :=
  String.ofList (iStr.take (iStr.length - iStrEnd.length))

/-- The conversion to `unsigned int`, of 32 bits. Past its range that of a real number is not
defined; it is taken modulo here. -/
def natOf : Value K → ℕ
  | .none => 0
  | .nat n => n
  | .real x => ⌊x⌋.toNat % 4294967296

def realOf : Value K → K
  | .none => 0
  | .nat n => n
  | .real x => x

/-- An action on the staging structure. -/
def store (a : Action) (v : Value K) (iStr iStrEnd : List Char) (d : DemandStruct K) :
    Except ActionException (DemandStruct K) :=
  match a with
  | .assignYear => .ok { d with itYear := natOf v }
  | .assignMonth => .ok { d with itMonth := natOf v }
  | .assignDay => .ok { d with itDay := natOf v }
  | .assignHours => .ok { d with itHours := natOf v }
  | .assignMinutes => .ok { d with itMinutes := natOf v }
  | .assignSeconds => .ok { d with itSeconds := natOf v }
  | .storePrefDepDateRangeStart => d.storePrefDepDateRangeStart
  | .storePrefDepDateRangeEnd => d.storePrefDepDateRangeEnd
  | .storeDow => .ok (d.storeDow (slice iStr iStrEnd))
  | .storeOrigin => .ok (d.storeOrigin (slice iStr iStrEnd))
  | .storeDestination => .ok (d.storeDestination (slice iStr iStrEnd))
  | .storePrefCabin => .ok (d.storePrefCabin (slice iStr iStrEnd))
  | .storePosCode => .ok (d.storePosCode (slice iStr iStrEnd))
  | .storePosProbMass => d.storePosProbMass (realOf v)
  | .storeChannelCode => .ok (d.storeChannelCode (slice iStr iStrEnd))
  | .storeChannelProbMass => d.storeChannelProbMass (realOf v)
  | .storeTripCode => .ok (d.storeTripCode (slice iStr iStrEnd))
  | .storeTripProbMass => d.storeTripProbMass (realOf v)
  | .storeStayCode => .ok (d.storeStayCode (natOf v))
  | .storeStayProbMass => d.storeStayProbMass (realOf v)
  | .storeFFCode => .ok (d.storeFFCode (slice iStr iStrEnd))
  | .storeFFProbMass => d.storeFFProbMass (realOf v)
  | .storeDemandChangeFeeProb => .ok (d.storeDemandChangeFeeProb (realOf v))
  | .storeDemandChangeFeeDisutility => .ok (d.storeDemandChangeFeeDisutility (realOf v))
  | .storeDemandNonRefundableProb => .ok (d.storeDemandNonRefundableProb (realOf v))
  | .storeDemandNonRefundableDisutility => .ok (d.storeDemandNonRefundableDisutility (realOf v))
  | .storePrefDepTime => .ok d.storePrefDepTime
  | .storePrefDepTimeProbMass => .ok (d.storePrefDepTimeProbMass (realOf v))
  | .storeWTP => .ok (d.storeWTP (realOf v))
  | .storeTimeValue => .ok (d.storeTimeValue (realOf v))
  | .storeTimeValueProbMass => .ok (d.storeTimeValueProbMass (realOf v))
  -- The action takes an unsigned integer: the real number it is given is truncated.
  | .storeDTD => .ok (d.storeDTD (natOf v))
  | .storeDTDProbMass => .ok (d.storeDTDProbMass (realOf v))
  | .storeDemandMean => .ok (d.storeDemandMean (realOf v))
  | .storeDemandStdDev => .ok (d.storeDemandStdDev (realOf v))
  | .doEndDemand => .ok d.cleanLists

/-- The exceptions that leave the parser of a file. -/
inductive ParserFailure
  | action (e : ActionException)
  /-- A failure of the creation of the streams. -/
  | creation (e : Fault)
  /-- `stdair::ParserException`, with the number of characters read. -/
  | parserException (length : ℕ)

structure ParserState (K G Q : Type) [LinearOrder K] where
  demand : DemandStruct K
  world : World K G Q
  /-- Where each row handed to `doEndDemand` ends, in order; the code does not keep it. -/
  handed : List (List Char)

variable {G Q : Type} [Libm K] [RandomGeneration K G] [EventQueue K Q]

/-- The streams are created from the row. When no number of iterations is enough for the loop over
its dates, the call does not return. -/
def doEndDemand (iStrEnd : List Char) (s : ParserState K G Q) :
    Effect ParserFailure (ParserState K G Q) :=
  let range := s.demand.dateRange
  match DemandManager.createDemandCharacteristics ((range.end_ - range.begin_).toNat + 1) s.demand
    s.world with
  | .ok _ w => .done ⟨s.demand.cleanLists, w, s.handed ++ [iStrEnd]⟩
  | .error .cut _ => .endless
  | .error e _ => .threw (.creation e)

def perform : Actor K Action ParserFailure (ParserState K G Q) := fun a v iStr iStrEnd s =>
  if a = .doEndDemand then doEndDemand iStrEnd s
  else
    match store a v iStr iStrEnd s.demand with
    | .ok d => .done { s with demand := d }
    | .error e => .threw (.action e)

end Actions

/-! ### Utility parsers -/

def upperOrDigit (c : Char) : Bool := c.isDigit || c.isUpper

def yearP : Grammar Action := .uintP 4 4 2000 2099
def monthP : Grammar Action := .uintP 2 2 1 12
def dayP : Grammar Action := .uintP 2 2 1 31
def dowP : Grammar Action := repeatP (.charP fun c => c = '0' || c = '1') 7
def airportP : Grammar Action := repeatP (.charP upperOrDigit) 3
def hoursP : Grammar Action := .uintP 1 2 0 23
def minutesP : Grammar Action := .uintP 2 2 0 59
def secondsP : Grammar Action := .uintP 2 2 0 59
def cabinCodeP : Grammar Action := .charP Char.isUpper
def ffTypeP : Grammar Action := .charP Char.isUpper
def stayDurationP : Grammar Action := .uintP 1 3 0 999

/-! ### The grammar -/

/-- Pairs separated by commas. -/
def dist (pair : Grammar Action) : Grammar Action := pair >> .star (ch ',' >> pair)

def date : Grammar Action :=
  lexeme (act yearP .assignYear >> ch '-' >> act monthP .assignMonth >> ch '-'
    >> act dayP .assignDay)

def dow : Grammar Action := lexeme dowP

def prefDepDateRange : Grammar Action :=
  act date .storePrefDepDateRangeStart >> ch ';' >> act date .storePrefDepDateRangeEnd
    >> ch ';' >> act dow .storeDow

def origin : Grammar Action := act airportP .storeOrigin
def destination : Grammar Action := act airportP .storeDestination
def prefCabin : Grammar Action := cabinCodeP

def posCode : Grammar Action := airportP <|> chseq 'r' ['o', 'w']
def posShare : Grammar Action := act urealP .storePosProbMass
def posPair : Grammar Action := act posCode .storePosCode >> ch ':' >> posShare
def posDist : Grammar Action := dist posPair

def channelCode : Grammar Action :=
  chseq 'D' ['F'] <|> chseq 'D' ['N'] <|> chseq 'I' ['F'] <|> chseq 'I' ['N']
def channelShare : Grammar Action := act urealP .storeChannelProbMass
def channelPair : Grammar Action := act channelCode .storeChannelCode >> ch ':' >> channelShare
def channelDist : Grammar Action := dist channelPair

def tripCode : Grammar Action := chseq 'R' ['O'] <|> chseq 'R' ['I'] <|> chseq 'O' ['W']
def tripShare : Grammar Action := act urealP .storeTripProbMass
def tripPair : Grammar Action := act tripCode .storeTripCode >> ch ':' >> tripShare
def tripDist : Grammar Action := dist tripPair

def stayShare : Grammar Action := act urealP .storeStayProbMass
def stayPair : Grammar Action := act stayDurationP .storeStayCode >> ch ':' >> stayShare
def stayDist : Grammar Action := dist stayPair

def ffCode : Grammar Action := ffTypeP
def ffShare : Grammar Action := act urealP .storeFFProbMass
def ffPair : Grammar Action := act ffCode .storeFFCode >> ch ':' >> ffShare
def ffDist : Grammar Action := dist ffPair

def changeFees : Grammar Action :=
  act urealP .storeDemandChangeFeeProb >> ch ';'
    >> act urealP .storeDemandChangeFeeDisutility

def nonRefundable : Grammar Action :=
  act urealP .storeDemandNonRefundableProb >> ch ';'
    >> act urealP .storeDemandNonRefundableDisutility

def time : Grammar Action :=
  lexeme (act hoursP .assignHours >> opt (ch '.' >> act minutesP .assignMinutes)
    >> opt (ch '.' >> act secondsP .assignSeconds))

def prefDepTimeShare : Grammar Action := act urealP .storePrefDepTimeProbMass
def prefDepTimePair : Grammar Action := act time .storePrefDepTime >> ch ':' >> prefDepTimeShare
def prefDepTimeDist : Grammar Action := dist prefDepTimePair

def wtp : Grammar Action := act urealP .storeWTP

def timeValueShare : Grammar Action := act urealP .storeTimeValueProbMass
def timeValuePair : Grammar Action := act urealP .storeTimeValue >> ch ':' >> timeValueShare
def timeValueDist : Grammar Action := dist timeValuePair

def dtdShare : Grammar Action := act urealP .storeDTDProbMass
def dtdPair : Grammar Action := act urealP .storeDTD >> ch ':' >> dtdShare
def dtdDist : Grammar Action := dist dtdPair

def demandParams : Grammar Action :=
  ch 'N' >> ch ',' >> act urealP .storeDemandMean >> ch ',' >> act urealP .storeDemandStdDev

def demandEnd : Grammar Action := ch ';'

/-- A row, up to its end. -/
def demandFields : Grammar Action :=
  prefDepDateRange >> ch ';' >> origin >> ch ';' >> destination
    >> ch ';' >> act prefCabin .storePrefCabin >> ch ';' >> posDist >> ch ';' >> channelDist
    >> ch ';' >> tripDist >> ch ';' >> stayDist >> ch ';' >> ffDist >> ch ';' >> changeFees
    >> ch ';' >> nonRefundable >> ch ';' >> prefDepTimeDist >> ch ';' >> wtp
    >> ch ';' >> timeValueDist >> ch ';' >> dtdDist >> ch ';' >> demandParams

def demand : Grammar Action := demandFields >> act demandEnd .doEndDemand

def notToBeParsed : Grammar Action :=
  lexeme (comment (chseq '/' ['/']) (eolP <|> endP)
    <|> comment (chseq '/' ['*']) (chseq '*' ['/']) <|> eolP)

def demandItem : Grammar Action := notToBeParsed <|> demand

def demandList : Grammar Action := .star demandItem

/-! ### The file parser -/

/-- The characters of `space_p - eol_p`: white space, but no end of line. -/
def isBlank (c : Char) : Bool :=
  c = ' ' || c = '\t' || c = Char.ofNat 11 || c = Char.ofNat 12

def skipBlanks (xs : List Char) : List Char := xs.dropWhile isBlank

/-- `boost::spirit::classic::parse_info`. -/
structure ParseInfo where
  stop : List Char
  hit : Bool
  full : Bool
  length : ℕ

section File

variable {K G Q : Type} [Field K] [LinearOrder K] [FloorRing K] [Libm K] [RandomGeneration K G]
  [EventQueue K Q]

/-- How the parsing of a file ends. -/
inductive Ending (K G Q : Type) [LinearOrder K]
  | returned (oResult : Bool) (s : ParserState K G Q)
  | threw (e : ParserFailure)
  | endless

/-- The information of a parse that is over, with the state it left. -/
def parseInfo (text : List Char) :
    Result K ParserFailure (ParserState K G Q) →
      Except (Ending K G Q) (ParseInfo × ParserState K G Q)
  | .hit _ stop s =>
    let stop := skipBlanks stop
    .ok (⟨stop, true, stop.isEmpty, text.length - stop.length⟩, s)
  | .miss s => .ok (⟨text, false, false, 0⟩, s)
  | .threw e => .error (.threw e)
  | .endless => .error .endless

/-- The result is whether the grammar matched; that the text was fully read is only logged. -/
def generateDemand (text : List Char) (s : ParserState K G Q) : Ending K G Q :=
  match parseInfo text (parse perform demandList skipBlanks text s) with
  | .error e => e
  | .ok (info, s') =>
    let oResult := info.hit
    if oResult = true then .returned oResult s'
    else .threw (.parserException info.length)

end File

end Trademgen
