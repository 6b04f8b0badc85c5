import Trademgen.Attributes

/-!
A demand stream: its key, its characteristics, and the state from which it draws booking
requests one by one.

A method of the stream is a computation on the stream that may end in a fault; the state
reached when the fault is raised is kept, as an exception of the code keeps it. What the
calls returned is in `DemandStreamSpec`.
-/

namespace Trademgen

open OrderedMap

/-! ### Data -/

structure DemandStreamKey where
  origin : String
  destination : String
  preferredDepartureDate : Date
  preferredCabin : String
  deriving DecidableEq

inductive DemandGenerationMethod
  | POI_PRO | STA_ORD
  deriving DecidableEq

structure DemandDistribution (K : Type) where
  meanNumberOfRequests : K
  stdDevNumberOfRequests : K

structure RandomGenerationContext (K : Type) where
  numberOfRequestsGeneratedSoFar : ℤ
  cumulativeProbabilitySoFar : K

structure DemandCharacteristics (K : Type) [LinearOrder K] where
  arrivalPattern : ContinuousAttributeLite K K
  posProbabilityMass : CategoricalAttributeLite String K
  channelProbabilityMass : CategoricalAttributeLite String K
  tripTypeProbabilityMass : CategoricalAttributeLite String K
  stayDurationProbabilityMass : CategoricalAttributeLite ℕ K
  frequentFlyerProbabilityMass : CategoricalAttributeLite String K
  changeFeeProb : K
  changeFeeDisutility : K
  nonRefundableProb : K
  nonRefundableDisutility : K
  preferredDepartureTimeCumulativeDistribution : ContinuousAttributeLite ℤ K
  minWTP : K
  frat5Pattern : ContinuousAttributeLite K K
  valueOfTimeCumulativeDistribution : ContinuousAttributeLite K K

structure DemandStream (K G : Type) [LinearOrder K] where
  key : DemandStreamKey
  demandCharacteristics : DemandCharacteristics K
  demandDistribution : DemandDistribution K
  totalNumberOfRequestsToBeGenerated : ℤ
  randomGenerationContext : RandomGenerationContext K
  requestDateTimeRandomGenerator : G
  demandCharacteristicsRandomGenerator : G
  stillHavingRequests : Bool
  firstDateTimeRequest : Bool
  dateTimeLastRequest : K

structure BookingRequestStruct (K : Type) where
  generatorKey : DemandStreamKey
  origin : String
  destination : String
  pos : String
  preferedDepartureDate : Date
  requestDateTime : DateTime
  preferredCabin : String
  bookingChannel : String
  tripType : String
  stayDuration : ℕ
  frequentFlyerType : String
  preferredDepartureTime : Duration
  wtp : K
  valueOfTime : K
  changeFees : Bool
  changeFeeDisutility : K
  nonRefundable : Bool
  nonRefundableDisutility : K

/-! ### Constants -/

section Constants

variable {K : Type} [Field K] [LinearOrder K]

/-- The lower bound of the last daily rate interval: one day before departure. -/
def DEFAULT_LAST_LOWER_BOUND_ARRIVAL_PATTERN : K := -1

def createFRAT5Pattern : OMap K K :=
  .ofPairs [((1.10 : K), (-365 : K)), (1.20, -63), (1.30, -49), (1.40, -35), (1.70, -23),
    (2.00, -16), (2.30, -10), (2.44, -5), (2.50, -1), (2.500000001, 0)]

end Constants

/-- The characteristics of a row, with the FRAT5 pattern every stream has. -/
def DemandCharacteristics.make {K : Type} [Field K] [LinearOrder K]
    (iArrivalPattern : OMap K K) (iPOSProbMass iChannelProbMass iTripTypeProbMass : OMap String K)
    (iStayDurationProbMass : OMap ℕ K) (iFrequentFlyerProbMass : OMap String K)
    (iChangeFeeProb iChangeFeeDisutility iNonRefundableProb iNonRefundableDisutility : K)
    (iPreferredDepartureTime : OMap ℤ K) (iMinWTP : K) (iValueOfTime : OMap K K) :
    DemandCharacteristics K where
  arrivalPattern := .init iArrivalPattern
  posProbabilityMass := .init iPOSProbMass
  channelProbabilityMass := .init iChannelProbMass
  tripTypeProbabilityMass := .init iTripTypeProbMass
  stayDurationProbabilityMass := .init iStayDurationProbMass
  frequentFlyerProbabilityMass := .init iFrequentFlyerProbMass
  changeFeeProb := iChangeFeeProb
  changeFeeDisutility := iChangeFeeDisutility
  nonRefundableProb := iNonRefundableProb
  nonRefundableDisutility := iNonRefundableDisutility
  preferredDepartureTimeCumulativeDistribution := .init iPreferredDepartureTime
  minWTP := iMinWTP
  frat5Pattern := .init createFRAT5Pattern
  valueOfTimeCumulativeDistribution := .init iValueOfTime

/-- The characteristics of a stream no row was read for. -/
def DemandCharacteristics.default (K : Type) [Field K] [LinearOrder K] : DemandCharacteristics K :=
  .make OMap.empty OMap.empty OMap.empty OMap.empty OMap.empty OMap.empty (1 / 2) 0 (1 / 2) 0
    OMap.empty 0 OMap.empty

namespace RandomGenerationContext

variable {K : Type} [Zero K]

def make : RandomGenerationContext K := ⟨0, 0⟩

def incrementGeneratedRequestsCounter (c : RandomGenerationContext K) :
    RandomGenerationContext K :=
  { c with numberOfRequestsGeneratedSoFar := c.numberOfRequestsGeneratedSoFar + 1 }

def setCumulativeProbabilitySoFar (c : RandomGenerationContext K) (iProb : K) :
    RandomGenerationContext K :=
  { c with cumulativeProbabilitySoFar := iProb }

def reset (_ : RandomGenerationContext K) : RandomGenerationContext K := ⟨0, 0⟩

end RandomGenerationContext

namespace DemandStream

variable {K G : Type} [Field K] [LinearOrder K] [FloorRing K] [Libm K] [RandomGeneration K G]

/-! ### Initialisation -/

/-- The constructor. The code leaves the numbers and the flags unset that `setAll` writes, and
the last date-time, which is written before it is read. -/
def make (iKey : DemandStreamKey) : DemandStream K G where
  key := iKey
  demandCharacteristics := .default K
  demandDistribution := ⟨0, 0⟩
  totalNumberOfRequestsToBeGenerated := 0
  randomGenerationContext := .make
  requestDateTimeRandomGenerator := RandomGeneration.init 0
  demandCharacteristicsRandomGenerator := RandomGeneration.init 0
  stillHavingRequests := false
  firstDateTimeRequest := false
  dateTimeLastRequest := 0

/-- Draws the number of requests, and starts the stream. -/
def init (s : DemandStream K G) (ioSharedGenerator : G) : DemandStream K G × G :=
  let (lRealNumberOfRequestsToBeGenerated, g) := RandomGeneration.normal
    s.demandDistribution.meanNumberOfRequests s.demandDistribution.stdDevNumberOfRequests
    ioSharedGenerator
  ({ s with
      totalNumberOfRequestsToBeGenerated := ⌊lRealNumberOfRequestsToBeGenerated + 1 / 2⌋
      stillHavingRequests := true
      firstDateTimeRequest := true }, g)

def reset (s : DemandStream K G) (ioSharedGenerator : G) : DemandStream K G × G :=
  init { s with randomGenerationContext := s.randomGenerationContext.reset } ioSharedGenerator

def setAll (s : DemandStream K G) (iDemandCharacteristics : DemandCharacteristics K)
    (iDemandDistribution : DemandDistribution K) (ioSharedGenerator : G)
    (iRequestDateTimeSeed iDemandCharacteristicsSeed : ℕ) : DemandStream K G × G :=
  init { s with
    demandCharacteristics := iDemandCharacteristics
    demandDistribution := iDemandDistribution
    totalNumberOfRequestsToBeGenerated := 0
    requestDateTimeRandomGenerator := RandomGeneration.init iRequestDateTimeSeed
    demandCharacteristicsRandomGenerator := RandomGeneration.init iDemandCharacteristicsSeed }
    ioSharedGenerator

def setBoolFirstDateTimeRequest (s : DemandStream K G) (iFirstDateTimeRequest : Bool) :
    DemandStream K G :=
  { s with firstDateTimeRequest := iFirstDateTimeRequest }

def stillHavingRequestsToBeGenerated (s : DemandStream K G) :
    DemandGenerationMethod → Bool
  | .STA_ORD =>
    let lRemainingNumberOfRequestsToBeGenerated := s.totalNumberOfRequestsToBeGenerated
      - s.randomGenerationContext.numberOfRequestsGeneratedSoFar
    if lRemainingNumberOfRequestsToBeGenerated ≤ 0 then false else true
  | .POI_PRO => s.stillHavingRequests

/-! ### Draws -/

/-- A lookup in a table, inside a method of the stream. -/
def lookup {σ α : Type} (x : Except Fault α) : EStateM Fault σ α := fun s =>
  match x with
  | .ok a => .ok a s
  | .error e => .error e s

def drawRequestDateTime : EStateM Fault (DemandStream K G) K := fun s =>
  let (u, g) := RandomGeneration.uniform s.requestDateTimeRandomGenerator
  .ok u { s with requestDateTimeRandomGenerator := g }

def drawDemandCharacteristics : EStateM Fault (DemandStream K G) K := fun s =>
  let (u, g) := RandomGeneration.uniform s.demandCharacteristicsRandomGenerator
  .ok u { s with demandCharacteristicsRandomGenerator := g }

/-- An exponential variate; the generator asks for a positive rate. -/
def generateExponential (lambda : K) : EStateM Fault (DemandStream K G) K := fun s =>
  if 0 < lambda then
    let (e, g) := RandomGeneration.exponential lambda s.requestDateTimeRandomGenerator
    .ok e { s with requestDateTimeRandomGenerator := g }
  else .error .nonPositiveRate s

/-- A duration in days, up to the next millisecond. -/
def convertFloatIntoDuration (iNumberOfDays : K) : Duration :=
  let lNumberOfSeconds := iNumberOfDays * 86400
  let lIntNumberOfSeconds := ⌊lNumberOfSeconds⌋
  let lNumberOfMilliseconds := (lNumberOfSeconds - lIntNumberOfSeconds) * 1000
  let lIntNumberOfMilliseconds := ⌊lNumberOfMilliseconds⌋ + 1
  DateTime.seconds lIntNumberOfSeconds + DateTime.millisec lIntNumberOfMilliseconds

/-- The hard-coded departure: eight o'clock on the preferred departure date. -/
def departureDateTime (s : DemandStream K G) : DateTime :=
  DateTime.ptime s.key.preferredDepartureDate (DateTime.hours 8)

/-! ### The time of the next request -/

def generateTimeOfRequestStatisticsOrder : EStateM Fault (DemandStream K G) DateTime := do
  let s ← get
  let lNbOfRequestsGeneratedSoFar := s.randomGenerationContext.numberOfRequestsGeneratedSoFar
  let lRemainingNumberOfRequestsToBeGenerated :=
    s.totalNumberOfRequestsToBeGenerated - lNbOfRequestsGeneratedSoFar
  if ¬ 0 < lRemainingNumberOfRequestsToBeGenerated then throw .assertion
  let lRemainingRate : K := 1 / (lRemainingNumberOfRequestsToBeGenerated : K)
  let lComplementOfCumulativeProbabilitySoFar :=
    1 - s.randomGenerationContext.cumulativeProbabilitySoFar
  let lVariate ← drawRequestDateTime
  let lPower := Libm.pow (1 - lVariate) lRemainingRate
  let lFactor := if lPower ≥ 1 - 1e-6 then 1 - 1e-6 else lPower
  let lCumulativeProbabilityThisRequest := 1 - lComplementOfCumulativeProbabilitySoFar * lFactor
  let lNumberOfDaysBetweenDepartureAndThisRequest ←
    lookup (s.demandCharacteristics.arrivalPattern.getValue lCumulativeProbabilityThisRequest)
  let lDifferenceBetweenDepartureAndThisRequest :=
    convertFloatIntoDuration lNumberOfDaysBetweenDepartureAndThisRequest
  modify fun s => { s with randomGenerationContext :=
    (s.randomGenerationContext.setCumulativeProbabilitySoFar
      lCumulativeProbabilityThisRequest).incrementGeneratedRequestsCounter }
  return s.departureDateTime + lDifferenceBetweenDepartureAndThisRequest

/-- How one pass through the body of the Poisson generator ends: it stops the stream, it
accepts a request, or it crosses into the next interval and calls itself. The last two say
which piece of time was walked, and at which rate; the code keeps neither. -/
inductive Visit (K : Type)
  | stop (t : DateTime)
  | accept (t : DateTime) (rate start finish : K)
  | cross (rate start finish : K)

/-- If no request has been generated so far, the walk starts at the lower bound of the arrival
pattern. -/
def startPoissonProcess : EStateM Fault (DemandStream K G) PUnit := do
  let s ← get
  if s.firstDateTimeRequest then
    let lower ← lookup (s.demandCharacteristics.arrivalPattern.getValue 0)
    set { s with dateTimeLastRequest := lower, firstDateTimeRequest := false }

def walkPoissonProcess : EStateM Fault (DemandStream K G) (Visit K) := do
  let s ← get
  if s.dateTimeLastRequest = DEFAULT_LAST_LOWER_BOUND_ARRIVAL_PATTERN then
    set { s with stillHavingRequests := false }
    return .stop (s.departureDateTime
      + convertFloatIntoDuration (-DEFAULT_LAST_LOWER_BOUND_ARRIVAL_PATTERN : K))
  let lArrivalPattern := s.demandCharacteristics.arrivalPattern
  let lUpperBound ← lookup (lArrivalPattern.getUpperBound s.dateTimeLastRequest)
  let lDerivative ← lookup (lArrivalPattern.getDerivativeValue s.dateTimeLastRequest)
  let lDailyRate := lDerivative * s.demandDistribution.meanNumberOfRequests
  let lExponentialVariable ← generateExponential lDailyRate
  let lDateTimeThisRequest := s.dateTimeLastRequest + lExponentialVariable
  if lDateTimeThisRequest < lUpperBound then
    modify fun s => { s with
      dateTimeLastRequest := lDateTimeThisRequest
      randomGenerationContext := s.randomGenerationContext.incrementGeneratedRequestsCounter }
    return .accept (s.departureDateTime + convertFloatIntoDuration lDateTimeThisRequest)
      lDailyRate s.dateTimeLastRequest lDateTimeThisRequest
  else
    modify fun s => { s with dateTimeLastRequest := lUpperBound }
    return .cross lDailyRate s.dateTimeLastRequest lUpperBound

/-- One pass through the body of the Poisson generator. -/
def visitPoissonProcess : EStateM Fault (DemandStream K G) (Visit K) := do
  startPoissonProcess
  walkPoissonProcess

/-- The recursion of the Poisson generator, followed for a number of visits. -/
def poissonProcess : ℕ → EStateM Fault (DemandStream K G) DateTime
  | 0 => throw .cut
  | n + 1 => do
    match ← visitPoissonProcess with
    | .stop t => return t
    | .accept t _ _ _ => return t
    | .cross _ _ _ => poissonProcess n

/-- The Poisson generator. Every recursive call starts at a later knot, so one visit more than
there are knots is enough. -/
def generateTimeOfRequestPoissonProcess : EStateM Fault (DemandStream K G) DateTime := do
  let s ← get
  poissonProcess (s.demandCharacteristics.arrivalPattern.size + 1)

/-! ### The characteristics of the next request -/

/-- A categorical draw: a variate of the characteristics generator, looked up in a table. -/
def generateCategorical {T : Type}
    (table : DemandCharacteristics K → CategoricalAttributeLite T K) :
    EStateM Fault (DemandStream K G) T := do
  let lVariate ← drawDemandCharacteristics
  let s ← get
  lookup ((table s.demandCharacteristics).getValue lVariate)

def generatePOS : EStateM Fault (DemandStream K G) String :=
  generateCategorical (·.posProbabilityMass)
def generateChannel : EStateM Fault (DemandStream K G) String :=
  generateCategorical (·.channelProbabilityMass)
def generateTripType : EStateM Fault (DemandStream K G) String :=
  generateCategorical (·.tripTypeProbabilityMass)
def generateStayDuration : EStateM Fault (DemandStream K G) ℕ :=
  generateCategorical (·.stayDurationProbabilityMass)
def generateFrequentFlyer : EStateM Fault (DemandStream K G) String :=
  generateCategorical (·.frequentFlyerProbabilityMass)

/-- Whether a variate of the characteristics generator falls below a probability. -/
def generateBelow (prob : DemandCharacteristics K → K) : EStateM Fault (DemandStream K G) Bool := do
  let lVariate ← drawDemandCharacteristics
  let s ← get
  return if lVariate < prob s.demandCharacteristics then true else false

def generateChangeFees : EStateM Fault (DemandStream K G) Bool :=
  generateBelow (·.changeFeeProb)
def generateNonRefundable : EStateM Fault (DemandStream K G) Bool :=
  generateBelow (·.nonRefundableProb)

def generatePreferredDepartureTime : EStateM Fault (DemandStream K G) Duration := do
  let lVariate ← drawDemandCharacteristics
  let s ← get
  let lNbOfSeconds ← lookup
    (s.demandCharacteristics.preferredDepartureTimeCumulativeDistribution.getValue lVariate)
  return DateTime.seconds lNbOfSeconds

def generateValueOfTime : EStateM Fault (DemandStream K G) K := do
  let lVariate ← drawDemandCharacteristics
  let s ← get
  lookup (s.demandCharacteristics.valueOfTimeCumulativeDistribution.getValue lVariate)

/-- The willingness-to-pay. It is drawn from the shared generator, whose state is returned. -/
def generateWTP (ioGenerator : G) (iDepartureDate : Date) (iDateTimeThisRequest : DateTime)
    (_iDurationOfStay : ℕ) : EStateM Fault (DemandStream K G) (K × G) := do
  let s ← get
  let lDateThisRequest := iDateTimeThisRequest.date
  let lAPInDays : ℤ := iDepartureDate - lDateThisRequest
  let lProb : K := -(lAPInDays : K)
  let lFrat5Coef ← lookup (s.demandCharacteristics.frat5Pattern.getValue lProb)
  let (lVariate, g) := RandomGeneration.uniform ioGenerator
  return (s.demandCharacteristics.minWTP
    * (1 + (lFrat5Coef - 1) * Libm.log lVariate / Libm.log (1 / 2)), g)

/-! ### The next request -/

def generateTimeOfRequest : DemandGenerationMethod → EStateM Fault (DemandStream K G) DateTime
  | .POI_PRO => generateTimeOfRequestPoissonProcess
  | .STA_ORD => generateTimeOfRequestStatisticsOrder

/-- The next booking request, and the shared generator after it. -/
def generateNextRequest (ioGenerator : G) (iDemandGenerationMethod : DemandGenerationMethod) :
    EStateM Fault (DemandStream K G) (BookingRequestStruct K × G) := do
  let lPOS ← generatePOS
  let lDateTimeThisRequest ← generateTimeOfRequest iDemandGenerationMethod
  let lChannelLabel ← generateChannel
  let lTripType ← generateTripType
  let lStayDuration ← generateStayDuration
  let lFrequentFlyer ← generateFrequentFlyer
  let lChangeFees ← generateChangeFees
  let lNonRefundable ← generateNonRefundable
  let lPreferredDepartureTime ← generatePreferredDepartureTime
  let lValueOfTime ← generateValueOfTime
  let s ← get
  let (lWTP, g) ← generateWTP ioGenerator s.key.preferredDepartureDate lDateTimeThisRequest
    lStayDuration
  return ({
    generatorKey := s.key
    origin := s.key.origin
    destination := s.key.destination
    pos := lPOS
    preferedDepartureDate := s.key.preferredDepartureDate
    requestDateTime := lDateTimeThisRequest
    preferredCabin := s.key.preferredCabin
    bookingChannel := lChannelLabel
    tripType := lTripType
    stayDuration := lStayDuration
    frequentFlyerType := lFrequentFlyer
    preferredDepartureTime := lPreferredDepartureTime
    wtp := lWTP
    valueOfTime := lValueOfTime
    changeFees := lChangeFees
    changeFeeDisutility := s.demandCharacteristics.changeFeeDisutility
    nonRefundable := lNonRefundable
    nonRefundableDisutility := s.demandCharacteristics.nonRefundableDisutility }, g)

end DemandStream

end Trademgen
