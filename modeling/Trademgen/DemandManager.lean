import Trademgen.DemandStruct

/-!
The demand manager, over the services of the event manager.

The event manager is not part of the repository: its queue is a parameter with laws, and the
world keeps what it was told. The keys of the streams stand for the strings the code makes of them.
-/

namespace Trademgen

open OrderedMap

/-! ### The event queue -/

/-- An event that carries a booking request. -/
structure EventStruct (K : Type) where
  eventTimeStamp : DateTime
  bookingRequest : BookingRequestStruct K

/-- The constructor of an event from a request: its time stamp is that of the request. -/
def EventStruct.make {K : Type} (r : BookingRequestStruct K) : EventStruct K :=
  ⟨r.requestDateTime, r⟩

class EventQueue (K : outParam Type) (Q : Type) where
  addEvent : EventStruct K → Q → Q
  /-- The earliest event, and the queue without it. -/
  popEvent : Q → Option (EventStruct K × Q)
  isQueueDone : Q → Bool
  /-- The events in the queue. -/
  contents : Q → Multiset (EventStruct K)

open EventQueue

/-- What is assumed of the queue. An event added can have its time stamp altered, and nothing
else. -/
structure EventQueueLaw (K Q : Type) [EventQueue K Q] : Prop where
  addEvent : ∀ (e : EventStruct K) (q : Q), ∃ t,
    contents (EventQueue.addEvent e q) = ⟨t, e.bookingRequest⟩ ::ₘ contents q
  popEvent : ∀ (q q' : Q) (e : EventStruct K), EventQueue.popEvent q = some (e, q') →
    contents q = e ::ₘ contents q' ∧ ∀ e' ∈ contents q', e.eventTimeStamp ≤ e'.eventTimeStamp
  popEvent_done : ∀ q : Q, EventQueue.popEvent q = none → contents q = 0
  isQueueDone : ∀ q : Q, EventQueue.isQueueDone q = true ↔ contents q = 0

/-- A queue kept as the list of its events, in the order of their time stamps. -/
structure SortedQueue (K : Type) where
  events : List (EventStruct K)
  sorted : events.Pairwise fun e e' => e.eventTimeStamp ≤ e'.eventTimeStamp

namespace SortedQueue

variable {K : Type}

def empty : SortedQueue K := ⟨[], .nil⟩

def insertEvent (e : EventStruct K) : List (EventStruct K) → List (EventStruct K)
  | [] => [e]
  | x :: r => if e.eventTimeStamp ≤ x.eventTimeStamp then e :: x :: r else x :: insertEvent e r

lemma perm_insertEvent (e : EventStruct K) (l : List (EventStruct K)) :
    (insertEvent e l).Perm (e :: l) := by
  induction l with
  | nil => exact .refl _
  | cons x r ih =>
    unfold insertEvent
    split_ifs
    · exact .refl _
    · exact (ih.cons x).trans (.swap e x r)

lemma sorted_insertEvent (e : EventStruct K) {l : List (EventStruct K)}
    (h : l.Pairwise fun e e' => e.eventTimeStamp ≤ e'.eventTimeStamp) :
    (insertEvent e l).Pairwise fun e e' => e.eventTimeStamp ≤ e'.eventTimeStamp := by
  induction l with
  | nil => simp [insertEvent]
  | cons x r ih =>
    obtain ⟨hx, hr⟩ := List.pairwise_cons.mp h
    unfold insertEvent
    split_ifs with hle
    · refine List.pairwise_cons.mpr ⟨fun y hy => ?_, h⟩
      rcases List.mem_cons.mp hy with rfl | hy
      · exact hle
      · exact hle.trans (hx y hy)
    · refine List.pairwise_cons.mpr ⟨fun y hy => ?_, ih hr⟩
      rcases List.mem_cons.mp ((perm_insertEvent e r).mem_iff.mp hy) with rfl | hy
      · exact (not_le.mp hle).le
      · exact hx y hy

instance : EventQueue K (SortedQueue K) where
  addEvent e q := ⟨insertEvent e q.events, sorted_insertEvent e q.sorted⟩
  popEvent q := match q with
    | ⟨[], _⟩ => none
    | ⟨e :: r, h⟩ => some (e, ⟨r, (List.pairwise_cons.mp h).2⟩)
  isQueueDone q := q.events.isEmpty
  contents q := q.events

lemma law : EventQueueLaw K (SortedQueue K) where
  addEvent e q := ⟨e.eventTimeStamp, Multiset.coe_eq_coe.mpr (perm_insertEvent e q.events)⟩
  popEvent q q' e h := by
    obtain ⟨_ | ⟨x, r⟩, hq⟩ := q
    · cases h
    · cases h
      exact ⟨rfl, (List.pairwise_cons.mp hq).1⟩
  popEvent_done q h := by
    obtain ⟨_ | ⟨x, r⟩, hq⟩ := q
    · rfl
    · cases h
  isQueueDone q := by
    obtain ⟨_ | ⟨x, r⟩, hq⟩ := q
    · exact ⟨fun _ => rfl, fun _ => rfl⟩
    · refine ⟨fun h => ?_, fun h => ?_⟩
      · cases h
      · exact absurd (Multiset.coe_eq_zero (x :: r) |>.mp h) (List.cons_ne_nil x r)

end SortedQueue

/-! ### The world -/

structure World (K G Q : Type) [LinearOrder K] where
  /-- The event generators, in the order in which they were added. -/
  demandStreamList : List DemandStreamKey
  demandStream : DemandStreamKey → DemandStream K G
  queue : Q
  /-- The actual total number of booking requests, in the status of the event manager. -/
  actualTotal : ℤ
  /-- The expected totals given to `addStatus` for the booking requests, in order. -/
  expectedTotals : List K
  /-- The shared generator. -/
  generator : G
  /-- The requests generated so far, in order; the code does not keep them. -/
  history : List (BookingRequestStruct K)

/-- A world with one stream, where nothing has happened yet. -/
def World.single {K G : Type} [LinearOrder K] (s : DemandStream K G) (g : G) :
    World K G (SortedQueue K) :=
  ⟨[s.key], fun _ => s, .empty, 0, [], g, []⟩

namespace DemandManager

variable {K G Q : Type} [Field K] [LinearOrder K] [FloorRing K] [Libm K] [RandomGeneration K G]
  [EventQueue K Q]

def updateStream (key : DemandStreamKey) (s : DemandStream K G) (w : World K G Q) :
    World K G Q :=
  { w with demandStream := Function.update w.demandStream key s }

/-! ### Streams -/

/-- The seed is the variate times a thousand million, truncated. -/
def generateSeed : EStateM Fault (World K G Q) ℕ := fun w =>
  let (lVariateUnif, g) := RandomGeneration.uniform w.generator
  .ok ⌊lVariateUnif * 1000000000⌋.toNat { w with generator := g }

/-- The stream is made, initialised, and given to the event manager. -/
def createDemandStream (iKey : DemandStreamKey) (iDemandCharacteristics : DemandCharacteristics K)
    (iDemandDistribution : DemandDistribution K)
    (iRequestDateTimeSeed iDemandCharacteristicsSeed : ℕ) :
    EStateM Fault (World K G Q) (DemandStream K G) := fun w =>
  let (s, g) := (DemandStream.make iKey).setAll iDemandCharacteristics iDemandDistribution
    w.generator iRequestDateTimeSeed iDemandCharacteristicsSeed
  .ok s { updateStream iKey s w with
    demandStreamList := w.demandStreamList ++ [iKey]
    generator := g }

def addStatus (iExpected : K) : EStateM Fault (World K G Q) PUnit :=
  modify fun w => { w with expectedTotals := w.expectedTotals ++ [iExpected] }

/-- The characteristics read from a row. -/
def characteristicsOf (iDemand : DemandStruct K) : DemandCharacteristics K :=
  .make iDemand.dtdProbDist iDemand.posProbDist iDemand.channelProbDist iDemand.tripProbDist
    iDemand.stayProbDist iDemand.ffProbDist iDemand.changeFeeProb iDemand.changeFeeDisutility
    iDemand.nonRefundableProb iDemand.nonRefundableDisutility iDemand.prefDepTimeProbDist
    iDemand.minWTP iDemand.timeValueProbDist

/-- What is done for one date of the range. -/
def createForDate (iDemand : DemandStruct K) (currentDate : Date) :
    EStateM Fault (World K G Q) PUnit := do
  let currentDoW := dayOfWeek currentDate
  let isDoWActive := iDemand.dow.getStandardDayOfWeek currentDoW
  if isDoWActive = true then
    let lDemandStreamKey : DemandStreamKey :=
      ⟨iDemand.origin, iDemand.destination, currentDate, iDemand.prefCabin⟩
    let lDemandDistribution : DemandDistribution K := ⟨iDemand.demandMean, iDemand.demandStdDev⟩
    let lRequestDateTimeSeed ← generateSeed
    let lDemandCharacteristicsSeed ← generateSeed
    let lDemandStream ← createDemandStream (G := G) lDemandStreamKey (characteristicsOf iDemand)
      lDemandDistribution lRequestDateTimeSeed lDemandCharacteristicsSeed
    addStatus lDemandStream.demandDistribution.meanNumberOfRequests

/-- The iterations of the loop over the date range, up to a number of them. The loop ends when the
iterator is equal to the end of the range. -/
def iterateDates (iDemand : DemandStruct K) : ℕ → Date → EStateM Fault (World K G Q) PUnit
  | 0, _ => throw .cut
  | n + 1, itDate =>
    if itDate ≠ iDemand.dateRange.end_ then do
      createForDate iDemand itDate
      iterateDates iDemand n (itDate + 1)
    else return ⟨⟩

def createDemandCharacteristics (n : ℕ) (iDemand : DemandStruct K) :
    EStateM Fault (World K G Q) PUnit :=
  iterateDates iDemand n iDemand.dateRange.begin_

/-! ### Requests -/

/-- The departure preferred is after the time of the request. -/
def isBeforeDeparture (r : BookingRequestStruct K) : Bool :=
  let lBookingRequestDate := r.requestDateTime.date
  let lBookingRequestTime := r.requestDateTime.timeOfDay
  (r.preferedDepartureDate > lBookingRequestDate) ||
    (r.preferedDepartureDate = lBookingRequestDate &&
      r.preferredDepartureTime > lBookingRequestTime)

/-- What becomes of a request: it is put in the queue, or taken off the actual total. -/
def dispatch (r : BookingRequestStruct K) (w : World K G Q) : World K G Q :=
  if isBeforeDeparture r then { w with queue := addEvent (EventStruct.make r) w.queue }
  else { w with actualTotal := w.actualTotal - 1 }

def stillHavingRequestsToBeGenerated (w : World K G Q) (iKey : DemandStreamKey)
    (iDemandGenerationMethod : DemandGenerationMethod) : Bool :=
  (w.demandStream iKey).stillHavingRequestsToBeGenerated iDemandGenerationMethod

/-- The request is generated by the stream of the key. -/
def drawRequest (iKey : DemandStreamKey) (iDemandGenerationMethod : DemandGenerationMethod) :
    EStateM Fault (World K G Q) (BookingRequestStruct K) := fun w =>
  match (w.demandStream iKey).generateNextRequest w.generator iDemandGenerationMethod with
  | .ok (r, g) s => .ok r { updateStream iKey s w with
      generator := g, history := w.history ++ [r] }
  | .error e s => .error e (updateStream iKey s w)

def generateNextRequest (iKey : DemandStreamKey)
    (iDemandGenerationMethod : DemandGenerationMethod) :
    EStateM Fault (World K G Q) (BookingRequestStruct K) := do
  let lBookingRequest ← drawRequest iKey iDemandGenerationMethod
  modify (dispatch lBookingRequest)
  return lBookingRequest

/-- The loop over the streams, with the total so far. -/
def iterateStreams (iDemandGenerationMethod : DemandGenerationMethod) :
    List DemandStreamKey → ℤ → EStateM Fault (World K G Q) ℤ
  | [], lActualTotalNbOfEvents => return lActualTotalNbOfEvents
  | lKey :: r, lActualTotalNbOfEvents => do
    modify fun w => updateStream lKey ((w.demandStream lKey).setBoolFirstDateTimeRequest true) w
    let w ← get
    let lActualNbOfEvents := (w.demandStream lKey).totalNumberOfRequestsToBeGenerated
    if stillHavingRequestsToBeGenerated w lKey iDemandGenerationMethod then
      let _ ← generateNextRequest lKey iDemandGenerationMethod
    iterateStreams iDemandGenerationMethod r (lActualTotalNbOfEvents + lActualNbOfEvents)

def generateFirstRequests (iDemandGenerationMethod : DemandGenerationMethod) :
    EStateM Fault (World K G Q) ℤ := do
  let w ← get
  let lActualTotalNbOfEvents ← iterateStreams iDemandGenerationMethod w.demandStreamList 0
  modify fun w => { w with actualTotal := lActualTotalNbOfEvents }
  return lActualTotalNbOfEvents

/-! ### The main loop -/

/-- The body of the main loop of the batch: the earliest event is popped, and if requests remain
its stream generates the next one. -/
def mainLoopBody (iDemandGenerationMethod : DemandGenerationMethod) :
    EStateM Fault (World K G Q) PUnit := do
  let w ← get
  match popEvent w.queue with
  | none => throw .assertion
  | some (lEventStruct, q) =>
    set { w with queue := q }
    let lPoppedRequest := lEventStruct.bookingRequest
    let lDemandStreamKey := lPoppedRequest.generatorKey
    if stillHavingRequestsToBeGenerated w lDemandStreamKey iDemandGenerationMethod then
      let lNextRequest ← generateNextRequest lDemandStreamKey iDemandGenerationMethod
      let lDuration : Duration := lNextRequest.requestDateTime - lPoppedRequest.requestDateTime
      -- The date-time of the next request may not be lower than that of the popped one.
      if Int.tdiv lDuration 1000 < 0 then throw .assertion

/-- The main loop, up to a number of iterations. -/
def mainLoop (iDemandGenerationMethod : DemandGenerationMethod) :
    ℕ → EStateM Fault (World K G Q) PUnit
  | 0 => throw .cut
  | n + 1 => do
    let w ← get
    if isQueueDone w.queue then return ⟨⟩
    else
      mainLoopBody iDemandGenerationMethod
      mainLoop iDemandGenerationMethod n

/-! ### Service calls -/

/-- What a client can ask for, one call at a time. -/
inductive ServiceCall
  | popEvent
  | generateNextRequest (iKey : DemandStreamKey)
  | generateFirstRequests
  deriving DecidableEq

/-- A call, with the number of events it popped. As in the shell, the next request of a stream is
generated only if there is such a stream and it has requests left. -/
def serve (iDemandGenerationMethod : DemandGenerationMethod) :
    ServiceCall → EStateM Fault (World K G Q) ℕ
  | .popEvent => do
    let w ← get
    match EventQueue.popEvent w.queue with
    | none => return 0
    | some (_, q) =>
      set { w with queue := q }
      return 1
  | .generateNextRequest iKey => do
    let w ← get
    if iKey ∈ w.demandStreamList ∧
        stillHavingRequestsToBeGenerated w iKey iDemandGenerationMethod = true then
      let _ ← generateNextRequest iKey iDemandGenerationMethod
    return 0
  | .generateFirstRequests => do
    let _ ← generateFirstRequests iDemandGenerationMethod
    return 0

def serveAll (iDemandGenerationMethod : DemandGenerationMethod) :
    List ServiceCall → EStateM Fault (World K G Q) ℕ
  | [] => return 0
  | c :: cs => do
    let n ← serve iDemandGenerationMethod c
    let k ← serveAll iDemandGenerationMethod cs
    return n + k

end DemandManager

end Trademgen
