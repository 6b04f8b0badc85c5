import Trademgen.DemandManager

/-!
The cancellations of the demand manager, drawn from the shared generator.

The time of a cancellation is a whole number of seconds before midnight of the departure date,
truncated toward zero twice. That keeps it between the request and the departure.

The travel solution belongs to another library; what is read of it is here. `I` is the type of
the booking class IDs.
-/

namespace Trademgen

open OrderedMap

structure TravelSolutionStruct (I : Type) where
  segmentPath : List String
  /-- The IDs of the booking classes, one map for each segment. -/
  classObjectIDMapHolder : List (OMap String I)
  /-- The class path of the chosen fare option: the classes of each segment, one letter each. -/
  classPath : List String

structure CancellationStruct (I : Type) where
  segmentPath : List String
  classIDList : List I
  partySize : ℕ
  datetime : DateTime

/-- What the event that the caller passes holds. -/
inductive CallerEvent (K I : Type)
  | empty
  | bookingRequest (event : EventStruct K)
  | cancellation (event : CancellationStruct I)

/-- The ID of the first class of a segment. -/
def firstClassID {I : Type} (lClassObjectIDMap : OMap String I) (lClassList : String) : Option I :=
  lClassList.toList.head?.bind fun lClassCode =>
    lClassObjectIDMap.find (String.singleton lClassCode)

/-- Each segment has its classes and its map, and the map knows the first of the classes. -/
structure TravelSolutionStruct.Known {I : Type} (t : TravelSolutionStruct I) : Prop where
  length : t.classPath.length = t.classObjectIDMapHolder.length
  known : ∀ x ∈ t.classObjectIDMapHolder.zip t.classPath, (firstClassID x.1 x.2).isSome

namespace DemandManager

variable {K G I : Type} [Field K] [LinearOrder K] [FloorRing K] [RandomGeneration K G]

/-- The list of the IDs: for each segment, that of the first of its classes. The class path is
walked in step with the maps; past its end the code reads what is not there. -/
def buildClassIDList : List (OMap String I) → List String → Except Fault (List I)
  | [], _ => return []
  | _ :: _, [] => .error .assertion
  | lClassObjectIDMap :: r, lClassList :: lClassPath =>
    match lClassList.toList with
    | [] => .error .assertion
    | lClassCode :: _ =>
      match lClassObjectIDMap.find (String.singleton lClassCode) with
      | none => .error .assertion
      | some lClassID => do
        let lClassIDList ← buildClassIDList r lClassPath
        return lClassID :: lClassIDList

/-- Whether a cancellation is generated, the shared generator after it, and the event of the
caller. -/
def generateCancellation (ioGenerator : G) (iTravelSolution : TravelSolutionStruct I)
    (iPartySize : ℕ) (iRequestTime : DateTime) (iDepartureDate : Date)
    (ioEventStruct : CallerEvent K I) : Except Fault (Bool × G × CallerEvent K I) :=
  let (lRandomNumber, g) := RandomGeneration.uniform ioGenerator
  if lRandomNumber ≥ 0.05 then return (false, g, ioEventStruct)
  else do
    let lRandomNumber := lRandomNumber / 0.05
    let lMidNight : Duration := DateTime.hours 0
    let lDepartureDateTime := DateTime.ptime iDepartureDate lMidNight
    let lTimeToDeparture : Duration := lDepartureDateTime - iRequestTime
    let lTimeToDepartureInSeconds := DateTime.total_seconds lTimeToDeparture
    let lCancellationTimeToDepartureInSeconds : ℤ :=
      Numeric.ofReal ((lTimeToDepartureInSeconds : K) * lRandomNumber)
    let lCancellationTimeToDeparture :=
      DateTime.seconds lCancellationTimeToDepartureInSeconds
    let lCancellationTime : DateTime := lDepartureDateTime - lCancellationTimeToDeparture
    let lTimeBetweenCancellationAndTheRequest : Duration := lCancellationTime - iRequestTime
    if lTimeBetweenCancellationAndTheRequest < 0 then return (false, g, ioEventStruct)
    let lClassIDList ←
      buildClassIDList iTravelSolution.classObjectIDMapHolder iTravelSolution.classPath
    return (true, g, .cancellation {
      segmentPath := iTravelSolution.segmentPath
      classIDList := lClassIDList
      partySize := iPartySize
      datetime := lCancellationTime })

/-! ### The time of a cancellation -/

section Time

variable {K : Type} [Field K] [LinearOrder K] [FloorRing K]

/-- The departure: midnight at the start of the departure date. -/
def midnight (iDepartureDate : Date) : DateTime := DateTime.ptime iDepartureDate (DateTime.hours 0)

/-- The seconds from a cancellation to the departure, for a share of the time from the request. -/
def cancellationTimeToDepartureInSeconds (iRequestTime : DateTime) (iDepartureDate : Date)
    (share : K) : ℤ :=
  Numeric.ofReal
    ((DateTime.total_seconds (midnight iDepartureDate - iRequestTime) : K) * share)

def cancellationTime (iRequestTime : DateTime) (iDepartureDate : Date) (share : K) : DateTime :=
  midnight iDepartureDate - DateTime.seconds
    (cancellationTimeToDepartureInSeconds iRequestTime iDepartureDate share)

lemma cancellationTime_eq (r : DateTime) (d : Date) (share : K) : cancellationTime r d share
    = midnight d - cancellationTimeToDepartureInSeconds r d share * 1000000 := rfl

lemma total_seconds_of_nonneg {t : ℤ} (h : 0 ≤ t) :
    0 ≤ DateTime.total_seconds t ∧ DateTime.total_seconds t * 1000000 ≤ t := by
  unfold DateTime.total_seconds
  rw [Int.tdiv_eq_ediv_of_nonneg h]
  omega

lemma total_seconds_of_neg {t : ℤ} (h : t < 0) :
    DateTime.total_seconds t ≤ 0 ∧ t ≤ DateTime.total_seconds t * 1000000 := by
  have hneg : DateTime.total_seconds t = -DateTime.total_seconds (-t) := by
    unfold DateTime.total_seconds
    rw [Int.neg_tdiv, neg_neg]
  obtain ⟨h0, h1⟩ := total_seconds_of_nonneg (t := -t) (by omega)
  omega

variable [IsStrictOrderedRing K]

/-- A share of a whole number, truncated, does not exceed it. -/
lemma ofReal_share_of_nonneg {n : ℤ} {share : K} (hn : 0 ≤ n) (h0 : 0 ≤ share) (h1 : share < 1) :
    0 ≤ (Numeric.ofReal ((n : K) * share) : ℤ) ∧ (Numeric.ofReal ((n : K) * share) : ℤ) ≤ n := by
  have hn' : (0 : K) ≤ n := Int.cast_nonneg hn
  have hfloor : (Numeric.ofReal ((n : K) * share) : ℤ) = ⌊(n : K) * share⌋ :=
    if_pos (mul_nonneg hn' h0)
  rw [hfloor]
  refine ⟨Int.floor_nonneg.mpr (mul_nonneg hn' h0), ?_⟩
  rw [← Int.floor_intCast (R := K) n]
  exact Int.floor_mono (by simpa using mul_le_of_le_one_right hn' h1.le)

/-- A negative number is not reached: truncation is toward zero. -/
lemma lt_ofReal_share {n : ℤ} {share : K} (hn : n < 0) (h1 : share < 1) :
    n < (Numeric.ofReal ((n : K) * share) : ℤ) := by
  have hlt : (n : K) < n * share := by
    calc (n : K) = n * 1 := (mul_one _).symm
      _ < n * share := mul_lt_mul_of_neg_left h1 (Int.cast_lt_zero.mpr hn)
  change n < if (0 : K) ≤ n * share then ⌊(n : K) * share⌋ else ⌈(n : K) * share⌉
  split_ifs with h
  · exact hn.trans_le (Int.floor_nonneg.mpr h)
  · exact Int.lt_ceil.mpr hlt

variable {r : DateTime} {d : Date} {share : K}

/-- A cancellation of a request in time falls between the request and the departure. -/
lemma cancellationTime_mem (h : r ≤ midnight d) (h0 : 0 ≤ share) (h1 : share < 1) :
    r ≤ cancellationTime r d share ∧ cancellationTime r d share ≤ midnight d := by
  obtain ⟨ht0, ht1⟩ := total_seconds_of_nonneg (sub_nonneg.mpr h)
  obtain ⟨hs0, hs1⟩ := ofReal_share_of_nonneg ht0 h0 h1
  change 0 ≤ cancellationTimeToDepartureInSeconds r d share at hs0
  change cancellationTimeToDepartureInSeconds r d share ≤ _ at hs1
  rw [cancellationTime_eq]
  constructor <;> linarith

/-- One of a request after the departure falls before the request. -/
lemma cancellationTime_lt (h : midnight d < r) (h1 : share < 1) :
    cancellationTime r d share < r := by
  obtain ⟨ht0, ht1⟩ := total_seconds_of_neg (sub_neg.mpr h)
  rw [cancellationTime_eq]
  rcases ht0.lt_or_eq with hlt | heq
  · have hs := lt_ofReal_share hlt h1
    change _ < cancellationTimeToDepartureInSeconds r d share at hs
    linarith
  -- Less than a second after: the time is the departure itself.
  · have hs : cancellationTimeToDepartureInSeconds r d share = 0 := by
      unfold cancellationTimeToDepartureInSeconds
      rw [heq]
      simp [Numeric.ofReal]
    rw [hs]
    linarith

lemma le_cancellationTime_iff (h0 : 0 ≤ share) (h1 : share < 1) :
    r ≤ cancellationTime r d share ↔ r ≤ midnight d := by
  refine ⟨fun h => ?_, fun h => (cancellationTime_mem h h0 h1).1⟩
  by_contra hlt
  exact absurd h (not_le.mpr (cancellationTime_lt (not_le.mp hlt) h1))

end Time

/-! ### A call -/

/-- The two lists are walked in step to their end. -/
lemma buildClassIDList_eq_ok {maps : List (OMap String I)} {path : List String}
    (hlength : path.length = maps.length)
    (hknown : ∀ x ∈ maps.zip path, (firstClassID x.1 x.2).isSome) :
    ∃ ids, buildClassIDList maps path = .ok ids ∧
      List.zipWith firstClassID maps path = ids.map some := by
  induction maps generalizing path with
  | nil => exact ⟨[], rfl, rfl⟩
  | cons map maps ih =>
    cases path with
    | nil => cases hlength
    | cons classes path =>
      obtain ⟨ids, hids, heq⟩ := ih (Nat.succ.inj hlength)
        fun x hx => hknown x (List.mem_cons_of_mem _ hx)
      obtain ⟨id, hid⟩ := Option.isSome_iff_exists.mp (hknown (map, classes) List.mem_cons_self)
      refine ⟨id :: ids, ?_, by rw [List.zipWith_cons_cons, hid, heq, List.map_cons]⟩
      obtain ⟨lClassCode, hcode, hfind⟩ := Option.bind_eq_some_iff.mp hid
      obtain ⟨r, hclasses⟩ := List.head?_eq_some_iff.mp hcode
      simp only [buildClassIDList, hclasses, hfind, hids]
      rfl

/-- What a call does: the variate decides whether there can be a cancellation, and its time
whether there is one. -/
lemma generateCancellation_eq (g : G) (t : TravelSolutionStruct I) (n : ℕ) (r : DateTime)
    (d : Date) (e : CallerEvent K I) :
    generateCancellation g t n r d e =
      if variate g 0 < 0.05 ∧ r ≤ cancellationTime r d (variate g 0 / 0.05) then do
        let ids ← buildClassIDList t.classObjectIDMapHolder t.classPath
        return (true, advance g 1, .cancellation
          ⟨t.segmentPath, ids, n, cancellationTime r d (variate g 0 / 0.05)⟩)
      else .ok (false, advance g 1, e) := by
  have h : generateCancellation g t n r d e =
      if variate g 0 ≥ 0.05 then .ok (false, advance g 1, e)
      else if cancellationTime r d (variate g 0 / 0.05) - r < 0 then .ok (false, advance g 1, e)
      else do
        let ids ← buildClassIDList t.classObjectIDMapHolder t.classPath
        return (true, advance g 1, .cancellation
          ⟨t.segmentPath, ids, n, cancellationTime r d (variate g 0 / 0.05)⟩) := rfl
  rw [h]
  by_cases hu : variate g 0 < 0.05
  · rw [if_neg (not_le.mpr hu)]
    by_cases hr : r ≤ cancellationTime r d (variate g 0 / 0.05)
    · rw [if_neg (not_lt.mpr (sub_nonneg.mpr hr)), if_pos ⟨hu, hr⟩]
    · rw [if_pos (sub_neg.mpr (not_le.mp hr)), if_neg (mt And.right hr)]
  · rw [if_pos (not_lt.mp hu), if_neg (mt And.left hu)]

/-- **When a cancellation is generated, and what it is.** There is one exactly when the variate
is below the probability and the request is not after midnight of the departure date. It falls
between the two, and has the ID of the first class of every segment. Without one, the event of
the caller stays as it was. -/
theorem generateCancellation_window [IsStrictOrderedRing K] (g : G) (t : TravelSolutionStruct I)
    (n : ℕ) (r : DateTime) (d : Date) (e : CallerEvent K I) (ht : t.Known)
    (hu : 0 ≤ variate g 0) :
    ∃ b e', generateCancellation g t n r d e = .ok (b, advance g 1, e') ∧
      (b = true ↔ variate g 0 < 0.05 ∧ r ≤ midnight d) ∧
      (b = true → ∃ c : CancellationStruct I, e' = .cancellation c ∧
        r ≤ c.datetime ∧ c.datetime ≤ midnight d ∧
        List.zipWith firstClassID t.classObjectIDMapHolder t.classPath = c.classIDList.map some) ∧
      (b = false → e' = e) := by
  obtain ⟨ids, hids, hlist⟩ := buildClassIDList_eq_ok ht.length ht.known
  have hp : (0 : K) < 0.05 := by norm_num
  have h0 : 0 ≤ variate g 0 / 0.05 := div_nonneg hu hp.le
  rw [generateCancellation_eq, hids]
  by_cases h : variate g 0 < 0.05 ∧ r ≤ midnight d
  · obtain ⟨hlt, hr⟩ := h
    have h1 : variate g 0 / 0.05 < 1 := (div_lt_one hp).mpr hlt
    obtain ⟨hge, hle⟩ := cancellationTime_mem hr h0 h1
    rw [if_pos ⟨hlt, hge⟩]
    exact ⟨true, _, rfl, iff_of_true rfl ⟨hlt, hr⟩, fun _ => ⟨_, rfl, hge, hle, hlist⟩, nofun⟩
  · rw [if_neg]
    · exact ⟨false, e, rfl, iff_of_false nofun h, nofun, fun _ => rfl⟩
    · rintro ⟨hlt, hge⟩
      exact h ⟨hlt, (le_cancellationTime_iff h0 ((div_lt_one hp).mpr hlt)).mp hge⟩

/-- The theorem for two segments, a variate of one fortieth and a request a second and a half
before the departure: the half of the second, truncated, leaves the departure itself. -/
theorem generateCancellation_window_sample :
    let g : Tape ℚ := .const (1 / 40) 1 0 (by norm_num) Tape.one_pos
    let t : TravelSolutionStruct ℕ :=
      ⟨["SQ;11", "SQ;12"], [.ofPairs [("M", 4), ("Y", 5)], .ofPairs [("Y", 6)]], ["YM", "Y"]⟩
    ∃ c, generateCancellation g t 2 (-1500000) 0 .empty
        = .ok (true, advance g 1, .cancellation c) ∧
      -1500000 ≤ c.datetime ∧ c.datetime ≤ midnight 0 ∧ c.classIDList = [5, 6] := by
  intro g t
  have ht : t.Known := ⟨rfl, by decide +kernel⟩
  have hu : variate g 0 = (1 / 40 : ℚ) := rfl
  obtain ⟨b, e', hcall, hb, hc, -⟩ := generateCancellation_window g t 2 (-1500000) 0 .empty ht
    (by rw [hu]; norm_num)
  obtain rfl : b = true := hb.mpr ⟨by rw [hu]; norm_num, by decide⟩
  obtain ⟨c, rfl, hge, hle, hlist⟩ := hc rfl
  refine ⟨c, hcall, hge, hle, ?_⟩
  have hids : List.zipWith firstClassID t.classObjectIDMapHolder t.classPath
      = [5, 6].map some := by decide +kernel
  exact List.map_injective_iff.mpr (Option.some_injective ℕ) (hlist.symm.trans hids)

end DemandManager

end Trademgen
