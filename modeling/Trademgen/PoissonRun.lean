import Trademgen.DemandManagerSpec
import Trademgen.PoissonProcess

/-!
The requests that a Poisson stream emits, from its start to the end of its walk.

The generator and the demand manager must agree on which request ends the walk: it is the only one
dated after the day of departure, and the only one that is not put in the queue.
-/

set_option linter.unusedSectionVars false

namespace Trademgen

open Faulting OrderedMap EventQueue DemandManager

variable {K : Type} [Field K] [LinearOrder K] [IsStrictOrderedRing K] [FloorRing K]

namespace DemandStream

variable {G : Type} [Libm K] [RandomGeneration K G]

/-! ### The dates of the requests -/

/-- A request accepted before `-1` is dated before the day of departure. -/
lemma date_lt_of_accepted (s : DemandStream K G) {y : K} (hy : y < -1) :
    (s.departureDateTime + convertFloatIntoDuration y).date < s.key.preferredDepartureDate := by
  have hfloor : ⌊y * 86400000⌋ < (-86400000 : ℤ) := by
    rw [Int.floor_lt]
    push_cast
    linarith
  rw [convertFloatIntoDuration_eq]
  unfold DateTime.date departureDateTime DateTime.ptime DateTime.hours DateTime.millisec
    DateTime.oneDay
  rw [Int.ediv_lt_iff_lt_mul (by norm_num)]
  linarith

lemma terminator_eq (s : DemandStream K G) :
    s.terminator = s.departureDateTime + DateTime.oneDay + DateTime.millisec 1 := by
  have hfloor : ⌊(1 : K) * 86400000⌋ = 86400000 := by
    rw [Int.floor_eq_iff]
    constructor <;> norm_num
  unfold terminator
  rw [convertFloatIntoDuration_eq, hfloor]
  unfold DateTime.millisec DateTime.oneDay
  ring

/-- The request at the end of the walk is dated after the day of departure. -/
lemma lt_date_terminator (s : DemandStream K G) :
    s.key.preferredDepartureDate < s.terminator.date := by
  rw [terminator_eq]
  unfold DateTime.date departureDateTime DateTime.ptime DateTime.hours DateTime.millisec
    DateTime.oneDay
  rw [Int.lt_iff_add_one_le, Int.le_ediv_iff_mul_le (by norm_num)]
  linarith

/-- No categorical draw fails, over any number of requests. -/
structure Steady (d : DemandCharacteristics K) (g : G) : Prop where
  frat5 : 0 < d.frat5Pattern.size
  draws : ∀ n : ℕ, Nonempty (Draws d (advance g (9 * n)))

lemma Steady.advance {d : DemandCharacteristics K} {g : G} (h : Steady d g) :
    Steady d (advance g 9) := by
  refine ⟨h.frat5, fun n => ?_⟩
  rw [← advance_add, show 9 + 9 * n = 9 * (n + 1) by ring]
  exact h.draws (n + 1)

/-- A time drawn makes a request. -/
lemma Steady.generateNextRequest {s s₁ : DemandStream K G} {m : DemandGenerationMethod}
    {t : DateTime} (h : Steady s.demandCharacteristics s.demandCharacteristicsRandomGenerator)
    (ht : generateTimeOfRequest m s = .ok t s₁) (g : G) :
    ∃ r, DemandStream.generateNextRequest g m s = .ok (r, Trademgen.advance g 1)
        (s₁.withCharacteristics (Trademgen.advance s.demandCharacteristicsRandomGenerator 9)) ∧
      r.generatorKey = s.key ∧ r.preferedDepartureDate = s.key.preferredDepartureDate ∧
      r.requestDateTime = t := by
  obtain ⟨x⟩ := h.draws 0
  obtain ⟨w, hw⟩ := exists_wtpAt h.frat5 s.key.preferredDepartureDate t (variate g 0)
  exact ⟨_, generateNextRequest_eq_ok.mpr ⟨t, s₁, x, w, ht, hw, rfl, rfl, rfl⟩, rfl, rfl, rfl⟩

/-- The visits of a call are determined. -/
lemma Call.unique {s s' s'' : DemandStream K G} {vs ws : List (Visit K)} {t u : DateTime}
    (h : Call s vs t s') (h' : Call s ws u s'') : vs = ws ∧ t = u ∧ s' = s'' := by
  induction h generalizing ws with
  | stop hv =>
    cases h' with
    | stop hv' => rw [hv] at hv'; cases hv'; exact ⟨rfl, rfl, rfl⟩
    | accept hv' => rw [hv] at hv'; cases hv'
    | cross hv' _ => rw [hv] at hv'; cases hv'
  | accept hv =>
    cases h' with
    | stop hv' => rw [hv] at hv'; cases hv'
    | accept hv' => rw [hv] at hv'; cases hv'; exact ⟨rfl, rfl, rfl⟩
    | cross hv' _ => rw [hv] at hv'; cases hv'
  | cross hv _ ih =>
    cases h' with
    | stop hv' => rw [hv] at hv'; cases hv'
    | accept hv' => rw [hv] at hv'; cases hv'
    | cross hv' hcall' =>
      rw [hv] at hv'
      cases hv'
      obtain ⟨rfl, rfl, rfl⟩ := ih hcall'
      exact ⟨rfl, rfl, rfl⟩

lemma SameBase.rateOf {s s' : DemandStream K G} (h : SameBase s s') (i : ℕ) :
    s'.rateOf i = s.rateOf i := by
  unfold DemandStream.rateOf
  rw [h.characteristics, h.distribution]

lemma SameBase.departureDateTime {s s' : DemandStream K G} (h : SameBase s s') :
    s'.departureDateTime = s.departureDateTime := by
  unfold DemandStream.departureDateTime
  rw [h.key]

lemma SameBase.trans {s s' s'' : DemandStream K G} (h : SameBase s s') (h' : SameBase s' s'') :
    SameBase s s'' :=
  ⟨h'.key.trans h.key, h'.characteristics.trans h.characteristics,
    h'.distribution.trans h.distribution, h'.total.trans h.total⟩

end DemandStream

open DemandStream

/-! ### Emissions -/

/-- A guarded call: where its walk starts, its visits, and the request it returned. -/
structure Emission (K : Type) where
  start : K
  visits : List (Visit K)
  request : BookingRequestStruct K

namespace Emission

/-- The offset accepted, if there is one. -/
def offsets (e : Emission K) : List K := e.visits.filterMap Visit.offset

/-- The walk of the call reached `-1`. -/
def stops (e : Emission K) : Bool := e.visits.any Visit.isStop

end Emission

section World

variable {G Q : Type} [Libm K] [RandomGeneration K G] [EventQueue K Q]

/-- The guarded calls made for a stream, one after the other. -/
inductive Emissions (key : DemandStreamKey) (w : World K G Q) :
    List (Emission K) → World K G Q → Prop
  | start : Emissions key w [] w
  | call {es : List (Emission K)} {w' w'' : World K G Q} {x : K} {vs : List (Visit K)}
      {t : DateTime} {s : DemandStream K G} {r : BookingRequestStruct K} :
      Emissions key w es w' → stillHavingRequestsToBeGenerated w' key .POI_PRO = true →
      (w'.demandStream key).position = .ok x → Call (w'.demandStream key) vs t s →
      generateNextRequest key .POI_PRO w' = .ok r w'' →
      Emissions key w (es ++ [⟨x, vs, r⟩]) w''

/-- A guarded call that returns is one of the calls. -/
lemma Emissions.next {key : DemandStreamKey} {w w' w'' : World K G Q} {es : List (Emission K)}
    (h : Emissions key w es w') (hstill : stillHavingRequestsToBeGenerated w' key .POI_PRO = true)
    {r : BookingRequestStruct K} (hr : generateNextRequest key .POI_PRO w' = .ok r w'') :
    ∃ x vs t s, (w'.demandStream key).position = .ok x ∧ Call (w'.demandStream key) vs t s ∧
      Emissions key w (es ++ [⟨x, vs, r⟩]) w'' := by
  obtain ⟨g, s, hgen, -⟩ := DemandManager.generateNextRequest_eq_ok.mp hr
  obtain ⟨t, s₁, -, -, htime, -⟩ := DemandStream.generateNextRequest_eq_ok.mp hgen
  obtain ⟨vs, hcall⟩ := generateTimeOfRequestPoissonProcess_eq_ok.mp htime
  obtain ⟨x, hx⟩ := hcall.exists_position
  exact ⟨x, vs, t, s₁, hx, hcall, h.call hstill hx hcall hr⟩

/-- The requests in the queue. -/
def World.requests (w : World K G Q) : Multiset (BookingRequestStruct K) :=
  (contents w.queue).map EventStruct.bookingRequest

/-- What the guarded calls made for a stream show. -/
structure Orderly (key : DemandStreamKey) (w : World K G Q) (es : List (Emission K))
    (w' : World K G Q) : Prop where
  returns : stillHavingRequestsToBeGenerated w' key .POI_PRO = true →
    ∃ r w'', generateNextRequest key .POI_PRO w' = .ok r w''
  ordered : (es.flatMap Emission.offsets).Pairwise (· ≤ ·)
  window : ∀ y ∈ es.flatMap Emission.offsets,
    (w.demandStream key).demandCharacteristics.arrivalPattern.v 0 ≤ y ∧ y < -1
  interval : ∀ e ∈ es, ∀ t r x y, Visit.accept t r x y ∈ e.visits →
    ∃ i, i + 1 < (w.demandStream key).demandCharacteristics.arrivalPattern.size ∧
      (w.demandStream key).demandCharacteristics.arrivalPattern.v i ≤ x ∧ x ≤ y ∧
      y < (w.demandStream key).demandCharacteristics.arrivalPattern.v (i + 1) ∧
      r = (w.demandStream key).rateOf i
  counter : (w'.demandStream key).randomGenerationContext.numberOfRequestsGeneratedSoFar
    = (es.flatMap Emission.offsets).length
  queued : w'.requests = w.requests
    + ((es.filter fun e => !e.stops).map Emission.request : Multiset (BookingRequestStruct K))
  terminator : ∀ e ∈ es, e.stops = true → e.request.requestDateTime
    = (w.demandStream key).departureDateTime + DateTime.oneDay + DateTime.millisec 1
  ended : es.countP Emission.stops
    = if stillHavingRequestsToBeGenerated w' key .POI_PRO then 0 else 1
  recursion : ∀ e ∈ es, e.visits.length
    ≤ (w.demandStream key).demandCharacteristics.arrivalPattern.knotsAhead e.start + 1

/-- A stream that the walk can go on from, as far as its start and its offsets tell. -/
structure Emitting (s₀ : DemandStream K G) (k : ℕ) (key : DemandStreamKey)
    (es : List (Emission K)) (w : World K G Q) : Prop where
  way : OnWay k (w.demandStream key)
  base : SameBase s₀ (w.demandStream key)
  steady : Steady (w.demandStream key).demandCharacteristics
    (w.demandStream key).demandCharacteristicsRandomGenerator
  bound : ∀ x, (w.demandStream key).position = .ok x → ∀ y ∈ es.flatMap Emission.offsets, y ≤ x

variable {s₀ : DemandStream K G} {k : ℕ} {key : DemandStreamKey} {es : List (Emission K)}
  {w w' w'' : World K G Q}

/-- A call whose time is drawn leaves the request dispatched and the stream as the draw left it. -/
lemma generateNextRequest_of_call {vs : List (Visit K)} {t : DateTime} {s : DemandStream K G}
    (hsteady : Steady (w.demandStream key).demandCharacteristics
      (w.demandStream key).demandCharacteristicsRandomGenerator)
    (hcall : Call (w.demandStream key) vs t s) :
    ∃ r g, generateNextRequest key .POI_PRO w = .ok r (afterRequest key r g
        (s.withCharacteristics
          (advance (w.demandStream key).demandCharacteristicsRandomGenerator 9)) w) ∧
      r.preferedDepartureDate = (w.demandStream key).key.preferredDepartureDate ∧
      r.requestDateTime = t := by
  obtain ⟨r, hr, -, hdate, htime⟩ :=
    hsteady.generateNextRequest hcall.generateTimeOfRequest w.generator
  exact ⟨r, _, generateNextRequest_eq_ok.mpr ⟨_, _, hr, rfl⟩, hdate, htime⟩

/-- While requests remain the next call returns. -/
lemma Emitting.returns (he : ExponentialLaw K G) (h : Emitting s₀ k key es w) :
    ∃ r w', generateNextRequest key .POI_PRO w = .ok r w' := by
  obtain ⟨x, hx, -, -⟩ := h.way.position
  obtain ⟨vs, t, s, hcall, -⟩ := h.way.exists_call he hx
  obtain ⟨r, g, hr, -, -⟩ := generateNextRequest_of_call h.steady hcall
  exact ⟨r, _, hr⟩

lemma isBeforeDeparture_of_lt {r : BookingRequestStruct K}
    (h : r.requestDateTime.date < r.preferedDepartureDate) : isBeforeDeparture r = true := by
  simp [isBeforeDeparture, h]

lemma isBeforeDeparture_of_gt {r : BookingRequestStruct K}
    (h : r.preferedDepartureDate < r.requestDateTime.date) : isBeforeDeparture r = false := by
  simp [isBeforeDeparture, h.not_gt, h.ne]

lemma requests_afterRequest_before (hq : EventQueueLaw K Q) {r : BookingRequestStruct K} {g : G}
    {s : DemandStream K G} (h : isBeforeDeparture r = true) :
    (afterRequest key r g s w).requests = r ::ₘ w.requests := by
  obtain ⟨⟨t, ht⟩, -⟩ := afterRequest_before (g := g) (s := s) (w := w) hq h
  unfold World.requests
  rw [ht, Multiset.map_cons]

lemma requests_afterRequest_late {r : BookingRequestStruct K} {g : G} {s : DemandStream K G}
    (h : isBeforeDeparture r = false) : (afterRequest key r g s w).requests = w.requests := by
  unfold World.requests
  rw [(afterRequest_late h).1]

lemma flatMap_offsets_append (es : List (Emission K)) (e : Emission K) :
    (es ++ [e]).flatMap Emission.offsets = es.flatMap Emission.offsets ++ e.offsets := by
  simp

/-- What a call adds to those before it. -/
structure Adds (s : DemandStream K G) (w : World K G Q) (e : Emission K) (s' : DemandStream K G)
    (w' : World K G Q) : Prop where
  offsets : ∀ y ∈ e.offsets, e.start ≤ y ∧ y < -1
  position : ∀ z, s'.position = .ok z → e.start ≤ z ∧ ∀ y ∈ e.offsets, y ≤ z
  pairwise : e.offsets.Pairwise (· ≤ ·)
  counter : s'.randomGenerationContext.numberOfRequestsGeneratedSoFar
    = s.randomGenerationContext.numberOfRequestsGeneratedSoFar + e.offsets.length
  queued : w'.requests = w.requests
    + (([e].filter fun e => !e.stops).map Emission.request : Multiset (BookingRequestStruct K))
  terminator : e.stops = true → e.request.requestDateTime = s.terminator
  ended : s'.stillHavingRequests = !e.stops

/-- A call on the way adds one offset and one request to the queue, or it ends the walk. -/
lemma DemandStream.OnWay.adds (hq : EventQueueLaw K Q) (he : ExponentialLaw K G)
    {s s' : DemandStream K G}
    (hway : OnWay k s) (hstill : s.stillHavingRequests = true) {x : K} (hx : s.position = .ok x)
    {vs : List (Visit K)} {t : DateTime} (hcall : Call s vs t s') {r : BookingRequestStruct K}
    (hdate : r.preferedDepartureDate = s.key.preferredDepartureDate) (htime : r.requestDateTime = t)
    (g g' : G) :
    Adds s w ⟨x, vs, r⟩ (s'.withCharacteristics g)
      (afterRequest key r g' (s'.withCharacteristics g) w) := by
  obtain ⟨hout, -⟩ := hway.outcome he hx hcall
  cases hout with
  | stopped hoffsets hstop hstill' hposition hcontext =>
    have hlate : isBeforeDeparture r = false := by
      refine isBeforeDeparture_of_gt ?_
      rw [hdate, htime]
      exact lt_date_terminator _
    have hnone : Emission.offsets ⟨x, vs, r⟩ = [] := hoffsets
    have hends : Emission.stops ⟨x, vs, r⟩ = true := hstop
    refine ⟨by simp [hnone], fun z hz => ?_, by simp [hnone], ?_, ?_, fun _ => htime, ?_⟩
    · obtain ⟨x', hx', -, h1⟩ := hway.position
      cases hx.symm.trans hx'
      cases hposition.symm.trans hz
      exact ⟨h1, by simp [hnone]⟩
    · change s'.randomGenerationContext.numberOfRequestsGeneratedSoFar = _
      rw [hcontext, hnone]
      simp
    · rw [requests_afterRequest_late hlate]
      simp [hends]
    · rw [hends]
      exact hstill'
  | accepted y hoffsets hstop hxy hy hstill' hposition hcontext =>
    have hbefore : isBeforeDeparture r = true := by
      refine isBeforeDeparture_of_lt ?_
      rw [hdate, htime]
      exact date_lt_of_accepted _ hy
    have hone : Emission.offsets ⟨x, vs, r⟩ = [y] := hoffsets
    have hends : Emission.stops ⟨x, vs, r⟩ = false := hstop
    refine ⟨by simpa [hone] using ⟨hxy, hy⟩, fun z hz => ?_, by simp [hone], ?_, ?_,
      by simp [hends], ?_⟩
    · cases hposition.symm.trans hz
      exact ⟨hxy, by simp [hone]⟩
    · change s'.randomGenerationContext.numberOfRequestsGeneratedSoFar = _
      rw [hcontext, hone]
      rfl
    · rw [requests_afterRequest_before hq hbefore, List.filter_cons_of_pos (by simp [hends])]
      exact (Multiset.singleton_add r _).symm.trans (add_comm _ _)
    · rw [hends]
      exact hstill'.trans hstill

lemma mem_offsets_append {e : Emission K} {y : K}
    (hy : y ∈ (es ++ [e]).flatMap Emission.offsets) :
    y ∈ es.flatMap Emission.offsets ∨ y ∈ e.offsets := by
  rw [flatMap_offsets_append, List.mem_append] at hy
  exact hy

/-- After what a request adds, of nine variates, the stream can still be walked on from. -/
lemma Emitting.add (h : Emitting s₀ k key es w) {e : Emission K}
    (hx : (w.demandStream key).position = .ok e.start) {s : DemandStream K G}
    (hsame : SameBase (w.demandStream key) s) (hway : OnWay k s)
    (hstream : w'.demandStream key = s.withCharacteristics
      (advance (w.demandStream key).demandCharacteristicsRandomGenerator 9))
    (hadds : Adds (w.demandStream key) w e (w'.demandStream key) w') :
    Emitting s₀ k key (es ++ [e]) w' := by
  have hbase : SameBase s₀ (w'.demandStream key) := by
    rw [hstream]
    exact (h.base.trans hsame).withCharacteristics _
  refine ⟨?_, hbase, ?_, ?_⟩
  · rw [hstream]
    exact ⟨hway.leads, hway.mean_pos, hway.position⟩
  · rw [hbase.characteristics, ← h.base.characteristics, hstream]
    exact h.steady.advance
  · intro z hz y hy
    obtain ⟨hxz, hyz⟩ := hadds.position z hz
    rcases mem_offsets_append hy with hy | hy
    · exact (h.bound _ hx y hy).trans hxz
    · exact hyz y hy

/-- The calls so far, of a stream that the walk can go on from. -/
structure Progressing (key : DemandStreamKey) (k : ℕ) (w : World K G Q) (es : List (Emission K))
    (w' : World K G Q) : Prop where
  emitting : Emitting (w.demandStream key) k key es w'
  orderly : Orderly key w es w'

/-- **A guarded call** keeps the calls orderly. -/
theorem Progressing.call (hq : EventQueueLaw K Q) (he : ExponentialLaw K G)
    (h : Progressing key k w es w')
    (hstill : stillHavingRequestsToBeGenerated w' key .POI_PRO = true) {x : K}
    (hx : (w'.demandStream key).position = .ok x) {vs : List (Visit K)} {t : DateTime}
    {s : DemandStream K G} (hcall : Call (w'.demandStream key) vs t s)
    {r : BookingRequestStruct K} (hr : generateNextRequest key .POI_PRO w' = .ok r w'') :
    Progressing key k w (es ++ [⟨x, vs, r⟩]) w'' := by
  obtain ⟨hway, hbase, hsteady, hbound⟩ := h.emitting
  have ho := h.orderly
  obtain ⟨r', g, hr', hdate, htime⟩ := generateNextRequest_of_call hsteady hcall
  cases hr.symm.trans hr'
  obtain ⟨-, hway'⟩ := hway.outcome he hx hcall
  set s' := s.withCharacteristics
    (advance (w'.demandStream key).demandCharacteristicsRandomGenerator 9) with hs'
  set e : Emission K := ⟨x, vs, r⟩ with hedef
  have hstream : (afterRequest key r g s' w').demandStream key = s' := by
    rw [afterRequest_demandStream, Function.update_self]
  have hadds : Adds (w'.demandStream key) w' e s' (afterRequest key r g s' w') :=
    hway.adds hq he hstill hx hcall hdate htime _ g
  have hemitting : Emitting (w.demandStream key) k key (es ++ [e])
      (afterRequest key r g s' w') :=
    h.emitting.add hx hcall.sameBase hway' hstream (by rw [hstream]; exact hadds)
  refine ⟨hemitting, fun _ => hemitting.returns he, ?_, ?_, ?_, ?_, ?_, ?_, ?_, ?_⟩
  · rw [flatMap_offsets_append, List.pairwise_append]
    exact ⟨ho.ordered, hadds.pairwise, fun y hy z hz =>
      (hbound x hx y hy).trans (hadds.offsets z hz).1⟩
  · intro y hy
    rcases mem_offsets_append hy with hy | hy
    · exact ho.window y hy
    · obtain ⟨hxy, hy1⟩ := hadds.offsets y hy
      obtain ⟨x', hx', h0, -⟩ := hway.position
      cases hx.symm.trans hx'
      have hlt := hway.leads.lt
      rw [hbase.characteristics] at h0 hlt
      exact ⟨((ContinuousAttributeLite.v_le _ (Nat.zero_le _)
        (ContinuousAttributeLite.startKnot_lt (by omega))).trans h0).trans hxy, hy1⟩
  · intro e' he' t' q x' y hvisit
    rcases List.mem_append.mp he' with he' | he'
    · exact ho.interval e' he' t' q x' y hvisit
    · cases List.mem_singleton.mp he'
      obtain ⟨i, hi⟩ := hway.interval he hx hcall hvisit
      rw [hbase.characteristics, hbase.rateOf] at hi
      exact ⟨i, hi⟩
  · rw [hstream, hadds.counter, ho.counter, flatMap_offsets_append, List.length_append]
    push_cast
    rfl
  · rw [hadds.queued, ho.queued, List.filter_append, List.map_append, add_assoc, Multiset.coe_add]
  · intro e' he' hstop
    rcases List.mem_append.mp he' with he' | he'
    · exact ho.terminator e' he' hstop
    · cases List.mem_singleton.mp he'
      rw [hadds.terminator hstop, terminator_eq, hbase.departureDateTime]
  · have hended := ho.ended
    rw [if_pos hstill] at hended
    have hstill' : stillHavingRequestsToBeGenerated (afterRequest key r g s' w') key .POI_PRO
        = !e.stops := by
      unfold DemandManager.stillHavingRequestsToBeGenerated
      rw [hstream]
      exact hadds.ended
    rw [List.countP_append, hended, hstill', List.countP_singleton, Nat.zero_add]
    cases e.stops <;> rfl
  · intro e' he'
    rcases List.mem_append.mp he' with he' | he'
    · exact ho.recursion e' he'
    · cases List.mem_singleton.mp he'
      obtain ⟨ws, u, s₂, hcall', hlen⟩ := hway.exists_call he hx
      obtain ⟨rfl, -, -⟩ := hcall.unique hcall'
      rwa [hbase.characteristics] at hlen

/-- A stream just started, on its way to `-1`. -/
lemma Progressing.start (he : ExponentialLaw K G) (hs : Fresh (w.demandStream key))
    (hway : OnWay k (w.demandStream key))
    (hsteady : Steady (w.demandStream key).demandCharacteristics
      (w.demandStream key).demandCharacteristicsRandomGenerator) :
    Progressing key k w [] w := by
  have hemitting : Emitting (w.demandStream key) k key [] w :=
    ⟨hway, (TimeOnly.refl _).sameBase, hsteady, by simp⟩
  have hstill : stillHavingRequestsToBeGenerated w key .POI_PRO = true := hs.still
  refine ⟨hemitting, fun _ => hemitting.returns he, by simp, by simp, by simp, ?_, by simp, by simp,
    by simp [hstill], by simp⟩
  rw [hs.context]
  rfl

/-- **Any number of guarded calls** is orderly. -/
lemma Emissions.progressing (hq : EventQueueLaw K Q) (he : ExponentialLaw K G)
    (hs : Fresh (w.demandStream key)) (hway : OnWay k (w.demandStream key))
    (hsteady : Steady (w.demandStream key).demandCharacteristics
      (w.demandStream key).demandCharacteristicsRandomGenerator)
    (h : Emissions key w es w') : Progressing key k w es w' := by
  induction h with
  | start => exact .start he hs hway hsteady
  | call _ hstill hx hcall hr ih => exact ih.call hq he hstill hx hcall hr

/-- The walk cannot start at its end only if that is the first knot, and the next one has no
probability either. -/
lemma startKnot_le_iff {a : ContinuousAttributeLite K K} (hc : ∀ i < a.size, 0 ≤ a.c i)
    (hk : k < a.size) (hlast : a.v k = -1) (hrise : ∀ i < k, a.c i < a.c (i + 1)) :
    a.startKnot ≤ k ↔ ¬ (a.v 0 = -1 ∧ a.c 0 = 0 ∧ 1 < a.size ∧ a.c 1 = 0) := by
  have hlen := a.firstAbove_c_le_size 0
  unfold ContinuousAttributeLite.startKnot
  refine ⟨?_, fun hnot => ?_⟩
  · rintro hstart ⟨hv0, hc0, h1, hc1⟩
    have hk0 : k = 0 := by
      by_contra hne
      have hlt := a.v_lt (Nat.pos_of_ne_zero hne) hk
      rw [hv0, hlast] at hlt
      exact lt_irrefl _ hlt
    rcases (by omega : Knots.firstAbove 0 a.cumulativeDistribution = 0 ∨
        Knots.firstAbove 0 a.cumulativeDistribution = 1) with h | h
    · exact absurd hc0 (a.lt_c (by omega) h).ne'
    · exact absurd hc1 (a.lt_c h1 h).ne'
  · by_contra hstart
    have hck : a.c k ≤ 0 := a.c_le_of_lt (by omega)
    have hck' : a.c (k + 1) ≤ 0 := a.c_le_of_lt (by omega)
    have hk0 : k = 0 := by
      by_contra hne
      have hlt := hrise (k - 1) (by omega)
      rw [Nat.sub_add_cancel (Nat.pos_of_ne_zero hne)] at hlt
      exact absurd (hc (k - 1) (by omega)) (not_le.mpr (hlt.trans_le hck))
    subst hk0
    exact hnot ⟨hlast, le_antisymm hck (hc 0 hk), by omega, le_antisymm hck' (hc 1 (by omega))⟩

/-- A walk that starts past `-1` cannot accept an offset of the window. -/
lemma not_orderly_of_past (he : ExponentialLaw K G) (hs : Fresh (w.demandStream key))
    (hsize : 0 < (w.demandStream key).demandCharacteristics.arrivalPattern.size)
    (hc : ∀ i < (w.demandStream key).demandCharacteristics.arrivalPattern.size,
      0 ≤ (w.demandStream key).demandCharacteristics.arrivalPattern.c i)
    (hpast : -1 < (w.demandStream key).demandCharacteristics.arrivalPattern.v
      (w.demandStream key).demandCharacteristics.arrivalPattern.startKnot) :
    ¬ ∀ es w', Emissions key w es w' → Orderly key w es w' := by
  intro hall
  obtain ⟨r, w', hr⟩ := (hall [] w .start).returns hs.still
  obtain ⟨x, vs, t, s, hx, hcall, hes⟩ := Emissions.start.next hs.still hr
  have hzero := ContinuousAttributeLite.getValue_zero hsize hc
  cases hx.symm.trans ((position_first hs.first).trans hzero)
  obtain ⟨y, hy, hlt⟩ := hcall.past he hx hpast
  have hone := hall _ _ hes
  have hwindow := hone.window y (by simp [Emission.offsets, hy])
  exact absurd hwindow.2 (not_lt.mpr hlt.le)

/-- **The run of a Poisson stream**: the guarded calls emit ordered offsets inside the window and
then one terminator, exactly when the walk does not start after its end. -/
theorem orderly_iff (hq : EventQueueLaw K Q) (he : ExponentialLaw K G) {w : World K G Q}
    {key : DemandStreamKey} (hs : Started (w.demandStream key))
    (hsteady : Steady (w.demandStream key).demandCharacteristics
      (w.demandStream key).demandCharacteristicsRandomGenerator)
    (hm : 0 < (w.demandStream key).demandDistribution.meanNumberOfRequests) {k : ℕ} :
    let a := (w.demandStream key).demandCharacteristics.arrivalPattern
    (∀ i < a.size, 0 ≤ a.c i) → k < a.size → a.v k = -1 → (∀ i < k, a.c i < a.c (i + 1)) →
      ((∀ es w', Emissions key w es w' → Orderly key w es w') ↔
        ¬ (a.v 0 = -1 ∧ a.c 0 = 0 ∧ 1 < a.size ∧ a.c 1 = 0)) := by
  intro a hc hk hlast hrise
  rw [← startKnot_le_iff hc hk hlast hrise]
  refine ⟨fun hall => ?_, fun hstart es w' hes => ?_⟩
  · by_contra hstart
    have hsize : 0 < a.size := by omega
    have hpast : -1 < a.v a.startKnot := by
      rw [← hlast]
      exact a.v_lt (not_le.mp hstart) (ContinuousAttributeLite.startKnot_lt hsize)
    exact not_orderly_of_past he hs.fresh hsize hc hpast hall
  · have hleads : a.Leads k := ⟨hk, hlast, hstart, fun i _ hi => hrise i hi⟩
    exact (hes.progressing hq he hs.fresh (.of_first hleads hc hm hs.fresh.first) hsteady).orderly

end World

section Real

/-- A world with one stream of a pattern, with a mean of one request. -/
noncomputable def patternSample (pattern : List (ℝ × ℝ)) : World ℝ (Tape ℝ) (SortedQueue ℝ) :=
  .single (sampleStream pattern 0 0 1 (Tape.const 0 1 0 Tape.zero_mem Tape.one_pos))
    (Tape.const 0 1 0 Tape.zero_mem Tape.one_pos)

lemma steady_sample {pattern : List (ℝ × ℝ)} :
    Steady ((patternSample pattern).demandStream sampleKey).demandCharacteristics
      ((patternSample pattern).demandStream sampleKey).demandCharacteristicsRandomGenerator :=
  ⟨List.length_pos_of_ne_nil (OMap.ofPairs_pairs_ne_nil (by simp)),
    fun _ => ⟨sampleDraws Tape.uniformLaw _⟩⟩

theorem orderly_iff_sample : ∃ e w',
    Emissions sampleKey (patternSample [(-30, 0), (-1, 1)]) [e] w' ∧
      Orderly sampleKey (patternSample [(-30, 0), (-1, 1)]) [e] w' := by
  set a := ((patternSample [(-30, 0), (-1, 1)]).demandStream
    sampleKey).demandCharacteristics.arrivalPattern with ha
  obtain ⟨hsize, hv0, hv1, hc0, hc1⟩ :
      a.size = 2 ∧ a.v 0 = -30 ∧ a.v 1 = -1 ∧ a.c 0 = 0 ∧ a.c 1 = 1 :=
    ContinuousAttributeLite.init_pair (by norm_num) 0 1
  have hall := (orderly_iff (w := patternSample [(-30, 0), (-1, 1)]) (k := 1) SortedQueue.law
    Tape.positiveExponentialLaw.nonneg sampleStream_started steady_sample one_pos
    (fun i _ => init_c_nonneg (by simp) i) (by rw [← ha]; omega) hv1 fun i hi => ?_).mpr ?_
  · obtain ⟨r, w', hr⟩ := (hall [] _ .start).returns rfl
    obtain ⟨x, vs, -, -, -, -, hes⟩ := Emissions.start.next rfl hr
    exact ⟨_, w', hes, hall _ _ hes⟩
  · obtain rfl : i = 0 := by omega
    rw [← ha, hc0, hc1]
    exact one_pos
  · rw [← ha, hv0]
    norm_num

/-- On a pattern of no probability at all the walk starts on the day of departure, past `-1`, and
an assertion fails at the first call. -/
theorem not_orderly_sample :
    (∃ s', generateTimeOfRequestPoissonProcess
        ((patternSample [(-1, 0), (0, 0)]).demandStream sampleKey) = .error .assertion s') ∧
      ¬ ∀ es w', Emissions sampleKey (patternSample [(-1, 0), (0, 0)]) es w' →
        Orderly sampleKey (patternSample [(-1, 0), (0, 0)]) es w' := by
  have h : ([((-1 : ℝ), (0 : ℝ)), (0, 0)].map Prod.fst).Pairwise (· < ·) := by norm_num
  set s := (patternSample [(-1, 0), (0, 0)]).demandStream sampleKey with hs
  set a := ContinuousAttributeLite.init (OMap.ofPairs [((-1 : ℝ), (0 : ℝ)), (0, 0)]) with ha
  have hsize : a.size = 2 := ContinuousAttributeLite.init_size h
  have hv1 : a.v 1 = 0 := ContinuousAttributeLite.init_v h 1
  have hc : ∀ i < a.size, 0 ≤ a.c i := fun i _ => init_c_nonneg (by simp) i
  have hstart : a.startKnot = 1 := by
    unfold ContinuousAttributeLite.startKnot Knots.firstAbove
    rw [ha, ContinuousAttributeLite.init_cumulativeDistribution h]
    simp [List.findIdx_cons]
  have h0 : 0 < a.size := by omega
  have hp : s.position = .ok (a.v 1) := by
    rw [position_first rfl, ← hstart]
    exact ContinuousAttributeLite.getValue_zero h0 hc
  have hlast : visitPoissonProcess s = .error .assertion (s.at_ (a.v 1)) := by
    refine visit_last hp (by rw [hv1]; norm_num) fun i hi => ?_
    exact a.v_le (by change i < a.size at hi; omega) (by omega)
  have herr : generateTimeOfRequestPoissonProcess s = .error .assertion (s.at_ (a.v 1)) := by
    change poissonProcess (a.size + 1) s = _
    rw [poissonProcess_succ, hlast]
  refine ⟨⟨_, herr⟩, not_orderly_of_past Tape.positiveExponentialLaw.nonneg
    (Started.fresh sampleStream_started) h0 hc ?_⟩
  change -1 < a.v a.startKnot
  rw [hstart, hv1]
  norm_num

end Real

end Trademgen
