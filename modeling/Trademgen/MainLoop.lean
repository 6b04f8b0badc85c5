import Trademgen.ServiceOrder
import Trademgen.Starvation
import Trademgen.NonInterference
import Trademgen.Lib.EventLoop

/-!
The main loop as a merge of the streams.

What a stream still has to generate is a list of requests, up to the willingness-to-pay, which the
shared generator decides. The loop takes from each stream the requests of its list up to the first
one that comes too late for its departure.
-/

set_option linter.unusedSectionVars false

namespace Trademgen

open Faulting EventQueue DemandManager DemandStream
open EventLoop (Asks Step Leads Timely State)

variable {K G Q : Type} [Field K] [LinearOrder K] [FloorRing K] [Libm K] [RandomGeneration K G]
  [EventQueue K Q] {m : DemandGenerationMethod}

/-- A request, its willingness-to-pay left out. -/
def BookingRequestStruct.withoutWTP (r : BookingRequestStruct K) : BookingRequestStruct K :=
  { r with wtp := 0 }

lemma withoutWTP_eq_iff {r r' : BookingRequestStruct K} :
    r.withoutWTP = r'.withoutWTP ↔ SameButWTP r r' := by
  obtain ⟨_, _, _, _, _, _, _, _, _, _, _, _, w, _, _, _, _, _⟩ := r
  obtain ⟨_, _, _, _, _, _, _, _, _, _, _, _, w', _, _, _, _, _⟩ := r'
  simp [BookingRequestStruct.withoutWTP, SameButWTP, eq_comm]

lemma isBeforeDeparture_withoutWTP (r : BookingRequestStruct K) :
    isBeforeDeparture r.withoutWTP = isBeforeDeparture r := rfl

/-! ### What a stream has still to generate -/

/-- The requests that a stream generates while it has any left, none of them by a call that
throws. -/
inductive Emits (m : DemandGenerationMethod) :
    DemandStream K G → List (BookingRequestStruct K) → Prop
  | stop {s} : s.stillHavingRequestsToBeGenerated m = false → Emits m s []
  | next {s s' r rs} : s.stillHavingRequestsToBeGenerated m = true → Generation s m r s' →
      Emits m s' rs → Emits m s (r.withoutWTP :: rs)

/-- A request that is generated with one state of the shared generator is with any other. -/
lemma DemandStream.Generation.again {s s' : DemandStream K G} {r : BookingRequestStruct K}
    (h : Generation s m r s') (g : G) :
    ∃ r', generateNextRequest g m s = .ok (r', advance g 1) s' ∧ r'.withoutWTP = r.withoutWTP := by
  obtain ⟨g₀, _, h⟩ := h
  obtain ⟨t, s₁, x, w, ht, hw, rfl, -, rfl⟩ := DemandStream.generateNextRequest_eq_ok.mp h
  have hfrat5 : 0 < s.demandCharacteristics.frat5Pattern.size := by
    unfold wtpAt at hw
    cases hf : s.demandCharacteristics.frat5Pattern.getValue
        (-((s.key.preferredDepartureDate - t.date : ℤ) : K)) with
    | error e =>
      rw [hf] at hw
      cases hw
    | ok f => exact ContinuousAttributeLite.size_pos _ hf
  obtain ⟨w', hw'⟩ := exists_wtpAt hfrat5 s.key.preferredDepartureDate t (variate g 0)
  exact ⟨_, DemandStream.generateNextRequest_eq_ok.mpr ⟨t, s₁, x, w', ht, hw', rfl, rfl, rfl⟩, rfl⟩

lemma Emits.stillHaving {s : DemandStream K G} {rs : List (BookingRequestStruct K)}
    (h : Emits m s rs) : s.stillHavingRequestsToBeGenerated m = true ↔ rs ≠ [] := by
  cases h with
  | stop hstill => simp [hstill]
  | next hstill => simp [hstill]

lemma Emits.call {s : DemandStream K G} {x : BookingRequestStruct K}
    {rs : List (BookingRequestStruct K)} (h : Emits m s (x :: rs)) (g : G) :
    ∃ r s', generateNextRequest g m s = .ok (r, advance g 1) s' ∧ r.withoutWTP = x ∧
      Emits m s' rs := by
  cases h with
  | next hstill hr hrest =>
    obtain ⟨r', hr', hsame⟩ := hr.again g
    exact ⟨r', _, hr', hsame, hrest⟩

/-- The list is determined. -/
lemma Emits.unique {s : DemandStream K G} {rs rs' : List (BookingRequestStruct K)}
    (h : Emits m s rs) (h' : Emits m s rs') : rs = rs' := by
  induction h generalizing rs' with
  | stop hstill =>
    cases h' with
    | stop => rfl
    | next hstill' => simp [hstill] at hstill'
  | next hstill hr _ ih =>
    cases h' with
    | stop hstill' => simp [hstill] at hstill'
    | next _ hr' hrest' =>
      obtain ⟨rfl, hsame⟩ := hr.same hr'
      rw [ih hrest', withoutWTP_eq_iff.mpr hsame]

/-! ### The loop -/

/-- The events that the main loop pops, in at most so many iterations. -/
def poppedEvents (m : DemandGenerationMethod) : ℕ → World K G Q → List (EventStruct K)
  | 0, _ => []
  | n + 1, w =>
    if isQueueDone w.queue then []
    else match popEvent w.queue, mainLoopBody m w with
      | none, _ => []
      | some (e, _), .ok _ w' => e :: poppedEvents m n w'
      | some (e, _), .error _ _ => [e]

/-- An event as an item of its stream. -/
def itemOf (e : EventStruct K) : DemandStreamKey × BookingRequestStruct K :=
  (e.bookingRequest.generatorKey, e.bookingRequest.withoutWTP)

/-- The world as a queue and its sources. -/
structure Represents (m : DemandGenerationMethod) (L : List DemandStreamKey) (w : World K G Q)
    (s : State DemandStreamKey (BookingRequestStruct K)) : Prop where
  list : w.demandStreamList = L
  key : ∀ key ∈ L, (w.demandStream key).key = key
  queue : s.queue = (contents w.queue).map itemOf
  owned : ∀ x ∈ s.queue, x.1 ∈ L
  emits : ∀ key ∈ L, Emits m (w.demandStream key) (s.rest key)

variable {L : List DemandStreamKey} {w : World K G Q}
  {s : State DemandStreamKey (BookingRequestStruct K)}

lemma Represents.stillHaving (h : Represents m L w s) {key : DemandStreamKey} (hkey : key ∈ L) :
    stillHavingRequestsToBeGenerated w key m = true ↔ s.rest key ≠ [] :=
  (h.emits key hkey).stillHaving

/-- **A request** of a stream is the next item of its source. -/
lemma Represents.ask (hq : EventQueueLaw K Q) (h : Represents m L w s) {key : DemandStreamKey}
    (hkey : key ∈ L) {x : BookingRequestStruct K} {rs : List (BookingRequestStruct K)}
    (hx : s.rest key = x :: rs) :
    ∃ r w' t, DemandManager.generateNextRequest key m w = .ok r w' ∧ r.withoutWTP = x ∧
      Asks isBeforeDeparture key s t ∧ Represents m L w' t := by
  have hemits := h.emits key hkey
  rw [hx] at hemits
  obtain ⟨r, u, hr, rfl, hrest⟩ := hemits.call w.generator
  have hbase := sameBase_next w.generator m (w.demandStream key)
  rw [hr, stateOf_ok] at hbase
  have hgenerator : r.generatorKey = key := by
    obtain ⟨t, s₁, x, v, -, -, rfl, -, -⟩ := DemandStream.generateNextRequest_eq_ok.mp hr
    exact h.key key hkey
  set w' := afterRequest key r (advance w.generator 1) u w with hw'
  obtain ⟨queue, rest⟩ := s
  have hrepresents {queue' : Multiset (DemandStreamKey × BookingRequestStruct K)}
      (hqueue : queue' = (contents w'.queue).map itemOf) (howned : ∀ x ∈ queue', x.1 ∈ L) :
      Represents m L w' ⟨queue', Function.update rest key rs⟩ := by
    refine ⟨afterRequest_demandStreamList.trans h.list, fun key' hkey' => ?_, hqueue, howned,
      fun key' hkey' => ?_⟩
    · rw [hw', afterRequest_demandStream]
      by_cases heq : key' = key
      · subst heq
        rw [Function.update_self, hbase.key, h.key key' hkey']
      · rw [Function.update_of_ne heq, h.key key' hkey']
    · rw [hw', afterRequest_demandStream]
      by_cases heq : key' = key
      · subst heq
        rw [Function.update_self]
        simpa using hrest
      · rw [Function.update_of_ne heq]
        simpa [heq] using h.emits key' hkey'
  refine ⟨r, w', ?_⟩
  have hcall : DemandManager.generateNextRequest key m w = .ok r w' :=
    DemandManager.generateNextRequest_eq_ok.mpr ⟨_, u, hr, rfl⟩
  cases hbefore : isBeforeDeparture r with
  | true =>
    obtain ⟨⟨t, ht⟩, -⟩ := afterRequest_before (g := advance w.generator 1) (s := u) (w := w) hq
      hbefore
    refine ⟨_, hcall, rfl, .admitted hx hbefore, hrepresents ?_ fun x hx => ?_⟩
    · rw [hw', ht, Multiset.map_cons, ← h.queue]
      simp [itemOf, hgenerator]
    · rcases Multiset.mem_cons.mp hx with rfl | hx
      · exact hkey
      · exact h.owned x hx
  | false =>
    refine ⟨_, hcall, rfl, .refused hx hbefore, hrepresents ?_ h.owned⟩
    rw [hw', (afterRequest_late hbefore).1]
    exact h.queue

/-- **An iteration** of the main loop is a step of the merge. -/
lemma Represents.mainLoopBody (hq : EventQueueLaw K Q) (h : Represents m L w s)
    (htimely : Timely BookingRequestStruct.requestDateTime s) (hne : contents w.queue ≠ 0) :
    ∃ e q w' t, popEvent w.queue = some (e, q) ∧
      DemandManager.mainLoopBody m w = .ok ⟨⟩ w' ∧ Step isBeforeDeparture s (itemOf e) t ∧
      Represents m L w' t := by
  cases hpop : popEvent w.queue with
  | none => exact absurd (hq.popEvent_done _ hpop) hne
  | some p =>
    obtain ⟨e, q⟩ := p
    obtain ⟨queue, rest⟩ := s
    set key := e.bookingRequest.generatorKey with hkeydef
    have hcontents : queue = itemOf e ::ₘ (contents q).map itemOf := by
      rw [← Multiset.map_cons, ← (hq.popEvent _ _ _ hpop).1]
      exact h.queue
    subst hcontents
    have hkey : key ∈ L := h.owned (itemOf e) (Multiset.mem_cons_self _ _)
    have h₁ : Represents m L ({ w with queue := q } : World K G Q)
        ⟨(contents q).map itemOf, rest⟩ :=
      ⟨h.list, h.key, rfl, fun x hx => h.owned x (Multiset.mem_cons_of_mem hx), h.emits⟩
    cases hrest : rest key with
    | nil =>
      have hstill : stillHavingRequestsToBeGenerated w key m = false := by
        rw [← Bool.not_eq_true, h.stillHaving hkey]
        exact not_not.mpr hrest
      exact ⟨e, q, _, _, rfl, mainLoopBody_stop hpop hstill, .mk (.spent hrest), h₁⟩
    | cons x rs =>
      have hstill : stillHavingRequestsToBeGenerated w key m = true := by
        rw [h.stillHaving hkey]
        exact fun hnil => List.cons_ne_nil x rs (hrest.symm.trans hnil)
      obtain ⟨r, w', t, hr, rfl, hask, h'⟩ := h₁.ask hq hkey hrest
      have htime : e.bookingRequest.requestDateTime ≤ r.requestDateTime := by
        refine htimely.queue (itemOf e) (Multiset.mem_cons_self _ _) r.withoutWTP ?_
        rw [show State.rest ⟨_, rest⟩ (itemOf e).1 = r.withoutWTP :: rs from hrest]
        exact List.mem_cons_self
      exact ⟨e, q, w', t, rfl, mainLoopBody_next hpop hstill hr htime, .mk hask, h'⟩

lemma poppedEvents_done {n : ℕ} (h : isQueueDone w.queue = true) : poppedEvents m n w = [] := by
  cases n with
  | zero => rfl
  | succ n => simp [poppedEvents, h]

lemma poppedEvents_step {n : ℕ} {e : EventStruct K} {q : Q} {w' : World K G Q}
    (h : isQueueDone w.queue = false) (hpop : popEvent w.queue = some (e, q))
    (hbody : mainLoopBody m w = .ok ⟨⟩ w') :
    poppedEvents m (n + 1) w = e :: poppedEvents m n w' := by
  simp [poppedEvents, h, hpop, hbody]

lemma poppedEvents_throw {n : ℕ} {e : EventStruct K} {q : Q} {f : Fault} {w' : World K G Q}
    (h : isQueueDone w.queue = false) (hpop : popEvent w.queue = some (e, q))
    (hbody : mainLoopBody m w = .error f w') : poppedEvents m (n + 1) w = [e] := by
  simp [poppedEvents, h, hpop, hbody]

/-- **The main loop** is a run of the merge, to an empty queue. -/
lemma Represents.mainLoop (hq : EventQueueLaw K Q) :
    ∀ (j : ℕ) {w : World K G Q} {s : State DemandStreamKey (BookingRequestStruct K)},
      Represents m L w s → Timely BookingRequestStruct.requestDateTime s →
      s.weight L.toFinset ≤ j → ∃ w' t, DemandManager.mainLoop m (j + 1) w = .ok ⟨⟩ w' ∧
        EventLoop.Run isBeforeDeparture s ((poppedEvents m (j + 1) w).map itemOf) t ∧
        Represents m L w' t ∧ contents w'.queue = 0 := by
  intro j
  induction j with
  | zero =>
    intro w s h htimely hj
    have hempty : contents w.queue = 0 := by
      have hcard := congrArg Multiset.card h.queue
      rw [Multiset.card_map] at hcard
      unfold State.weight at hj
      exact Multiset.card_eq_zero.mp (by omega)
    have hdone := (hq.isQueueDone w.queue).mpr hempty
    refine ⟨w, s, mainLoop_done hdone, ?_, h, hempty⟩
    rw [poppedEvents_done hdone]
    exact .nil
  | succ j ih =>
    intro w s h htimely hj
    by_cases hempty : contents w.queue = 0
    · have hdone := (hq.isQueueDone w.queue).mpr hempty
      refine ⟨w, s, mainLoop_done hdone, ?_, h, hempty⟩
      rw [poppedEvents_done hdone]
      exact .nil
    · have hdone : isQueueDone w.queue = false := by
        rw [← Bool.not_eq_true, hq.isQueueDone]
        exact hempty
      obtain ⟨e, q, w₁, s₁, hpop, hbody, hstep, h₁⟩ := h.mainLoopBody hq htimely hempty
      have hmem : (itemOf e).1 ∈ L.toFinset := by
        refine List.mem_toFinset.mpr (h.owned _ ?_)
        rw [h.queue, (hq.popEvent _ _ _ hpop).1]
        exact Multiset.mem_map_of_mem _ (Multiset.mem_cons_self _ _)
      have hlt := hstep.weight_lt hmem
      obtain ⟨w', t, hloop, hrun, h', hempty'⟩ := ih h₁ (htimely.step hstep) (by omega)
      refine ⟨w', t, (mainLoop_step hdone hbody).trans hloop, ?_, h', hempty'⟩
      rw [poppedEvents_step hdone hpop hbody, List.map_cons]
      exact .cons hstep hrun

/-! ### The first requests -/

/-- While the first requests are generated: the streams `ks` have still to be asked, and the others
lead with what their lists lead with. -/
structure Asking (m : DemandGenerationMethod) (L : List DemandStreamKey)
    (R : DemandStreamKey → List (BookingRequestStruct K)) (ks : List DemandStreamKey)
    (w : World K G Q) (s : State DemandStreamKey (BookingRequestStruct K)) : Prop where
  represents : Represents m L w s
  timely : Timely BookingRequestStruct.requestDateTime s
  first : ∀ key ∈ ks, (w.demandStream key).firstDateTimeRequest = true
  untouched : ∀ key ∈ ks, s.pending key = 0 ∧ s.rest key = R key
  leads : ∀ key ∈ L, key ∉ ks →
    Leads isBeforeDeparture s key ((R key).takeWhile isBeforeDeparture)

variable {R : DemandStreamKey → List (BookingRequestStruct K)} {ks : List DemandStreamKey}

/-- One stream is asked for its first request. -/
lemma Asking.next {key : DemandStreamKey} (h : Asking m L R (key :: ks) w s) (hkeys : key ∉ ks)
    {w' : World K G Q} {t : State DemandStreamKey (BookingRequestStruct K)}
    (hask : Asks isBeforeDeparture key s t) (h' : Represents m L w' t)
    (hfirst : ∀ key' ≠ key, w'.demandStream key' = w.demandStream key') :
    Asking m L R ks w' t := by
  have hne {key' : DemandStreamKey} (hkey' : key' ∈ ks) : key' ≠ key := by
    rintro rfl
    exact hkeys hkey'
  refine ⟨h', h.timely.asks hask, fun key' hkey' => ?_, fun key' hkey' => ?_,
    fun key' hkey' hnot => ?_⟩
  · rw [hfirst key' (hne hkey')]
    exact h.first key' (List.mem_cons_of_mem key hkey')
  · obtain ⟨hpending, hrest⟩ := h.untouched key' (List.mem_cons_of_mem key hkey')
    cases hask with
    | spent => exact ⟨hpending, hrest⟩
    | @admitted q rest b r hr hb =>
      exact ⟨(EventLoop.pending_cons_of_ne (hne hkey').symm q _ rest b).trans hpending,
        (Function.update_of_ne (hne hkey') ..).trans hrest⟩
    | refused hr hb => exact ⟨hpending, (Function.update_of_ne (hne hkey') ..).trans hrest⟩
  · obtain ⟨hpending, hrest⟩ := h.untouched key List.mem_cons_self
    by_cases heq : key' = key
    · subst heq
      rw [← hrest]
      exact hask.leads hpending
    · exact hask.leads_of_ne (Ne.symm heq) (h.leads key' hkey' (by simp [heq, hnot]))

/-- **The loop over the streams** asks each of them once. -/
lemma Asking.iterateStreams (hq : EventQueueLaw K Q) :
    ∀ {ks : List DemandStreamKey} (_ : ks.Nodup) (_ : ks ⊆ L) {w : World K G Q}
      {s : State DemandStreamKey (BookingRequestStruct K)} (_ : Asking m L R ks w s) (total : ℤ),
      ∃ total' w' t, DemandManager.iterateStreams m ks total w = .ok total' w' ∧
        Asking m L R [] w' t := by
  intro ks
  induction ks with
  | nil => exact fun _ _ w s h total => ⟨total, w, s, rfl, h⟩
  | cons key ks ih =>
    intro hnodup hks w s h total
    obtain ⟨hkeys, hnodup'⟩ := List.nodup_cons.mp hnodup
    have hkey : key ∈ L := hks List.mem_cons_self
    have hks' : ks ⊆ L := fun k hk => hks (List.mem_cons_of_mem key hk)
    have hflag : updateStream key ((w.demandStream key).setBoolFirstDateTimeRequest true) w = w := by
      have hset : (w.demandStream key).setBoolFirstDateTimeRequest true = w.demandStream key := by
        unfold DemandStream.setBoolFirstDateTimeRequest
        rw [← h.first key List.mem_cons_self]
      rw [hset, updateStream_eq_self]
    cases hrest : s.rest key with
    | nil =>
      have hstill : stillHavingRequestsToBeGenerated w key m = false := by
        rw [← Bool.not_eq_true, h.represents.stillHaving hkey]
        exact not_not.mpr hrest
      have hask : Asks isBeforeDeparture key s s := by
        obtain ⟨q, rest⟩ := s
        exact .spent hrest
      obtain ⟨total', w', t, hrun, h'⟩ := ih hnodup' hks'
        (h.next hkeys hask h.represents fun _ _ => rfl) _
      exact ⟨total', w', t, (iterateStreams_skip hflag.symm hstill).trans hrun, h'⟩
    | cons x rs =>
      have hstill : stillHavingRequestsToBeGenerated w key m = true := by
        rw [h.represents.stillHaving hkey]
        exact fun hnil => List.cons_ne_nil x rs (hrest.symm.trans hnil)
      obtain ⟨r, w₁, s₁, hr, -, hask, h₁⟩ := h.represents.ask hq hkey hrest
      have hother (key' : DemandStreamKey) (hne : key' ≠ key) :
          w₁.demandStream key' = w.demandStream key' := by
        obtain ⟨g, u, -, rfl⟩ := DemandManager.generateNextRequest_eq_ok.mp hr
        rw [afterRequest_demandStream, Function.update_of_ne hne]
      obtain ⟨total', w', t, hrun, h'⟩ := ih hnodup' hks' (h.next hkeys hask h₁ hother) _
      exact ⟨total', w', t, (iterateStreams_next hflag.symm hstill hr).trans hrun, h'⟩

/-- The requests of a stream among the events popped, their willingness-to-pay left out. -/
def requestsOf (key : DemandStreamKey) (es : List (EventStruct K)) :
    List (BookingRequestStruct K) :=
  ((es.map EventStruct.bookingRequest).filter fun r => r.generatorKey = key).map
    BookingRequestStruct.withoutWTP

lemma requestsOf_eq (key : DemandStreamKey) (es : List (EventStruct K)) :
    requestsOf key es = ((es.map itemOf).filter fun x => x.1 = key).map Prod.snd := by
  unfold requestsOf
  induction es with
  | nil => rfl
  | cons e es ih =>
    by_cases h : e.bookingRequest.generatorKey = key
    · simp [itemOf, h] at ih ⊢
      exact ih
    · simp [itemOf, h] at ih ⊢
      exact ih

/-- The streams were started under their keys, and each of them has a list of requests to
generate. -/
structure Merging (m : DemandGenerationMethod) (w : World K G Q)
    (R : DemandStreamKey → List (BookingRequestStruct K)) : Prop where
  nodup : w.demandStreamList.Nodup
  key : ∀ key ∈ w.demandStreamList, (w.demandStream key).key = key
  started : ∀ key ∈ w.demandStreamList, (w.demandStream key).Started
  emits : ∀ key ∈ w.demandStreamList, Emits m (w.demandStream key) (R key)
  empty : contents w.queue = 0

/-- The loop takes from every stream the requests of its list up to the first that comes too late,
if the lists are in order of time. -/
lemma Merging.run (hq : EventQueueLaw K Q) (h : Merging m w R)
    (htimes : ∀ key ∈ w.demandStreamList,
      (R key).Pairwise fun r r' => r.requestDateTime ≤ r'.requestDateTime) :
    ∃ total w₁ j w', generateFirstRequests m w = .ok total w₁ ∧
      mainLoop m j w₁ = .ok ⟨⟩ w' ∧ contents w'.queue = 0 ∧
      (∀ e ∈ poppedEvents m j w₁, e.bookingRequest.generatorKey ∈ w.demandStreamList) ∧
      ∀ key ∈ w.demandStreamList,
        requestsOf key (poppedEvents m j w₁) = (R key).takeWhile isBeforeDeparture := by
  classical
  set L := w.demandStreamList with hL
  set s₀ : State DemandStreamKey (BookingRequestStruct K) :=
    ⟨0, fun key => if key ∈ L then R key else []⟩ with hs₀
  have hasking : Asking m L R L w s₀ := by
    refine ⟨⟨rfl, h.key, by rw [h.empty]; rfl, by simp [hs₀], fun key hkey => ?_⟩,
      ⟨by simp [hs₀], fun key => ?_⟩, fun key hkey => (h.started key hkey).fresh.first,
      fun key hkey => ⟨rfl, if_pos hkey⟩, fun key hkey hnot => absurd hkey hnot⟩
    · simpa [hs₀, hkey] using h.emits key hkey
    · by_cases hkey : key ∈ L
      · simpa [hs₀, hkey] using htimes key hkey
      · simp [hs₀, hkey]
  obtain ⟨total, w₁, t, hfirst, h₁⟩ := hasking.iterateStreams hq h.nodup (List.Subset.refl L) 0
  set w₂ : World K G Q := { w₁ with actualTotal := total } with hw₂
  have h₂ : Represents m L w₂ t := ⟨h₁.represents.list, h₁.represents.key, h₁.represents.queue,
    h₁.represents.owned, h₁.represents.emits⟩
  obtain ⟨w', t', hloop, hrun, h', hempty⟩ := h₂.mainLoop hq _ h₁.timely le_rfl
  have hdone : t'.queue = 0 := by rw [h'.queue, hempty, Multiset.map_zero]
  refine ⟨total, w₂, _, w', generateFirstRequests_ok hfirst, hloop, hempty, fun e he => ?_,
    fun key hkey => ?_⟩
  · -- A key of no stream leads with nothing.
    by_contra hnot
    have hpending : t.pending e.bookingRequest.generatorKey = 0 := by
      unfold State.pending
      rw [Multiset.map_eq_zero, Multiset.filter_eq_nil]
      intro x hx heq
      exact hnot (heq ▸ h₁.represents.owned x hx)
    have hnone := hrun.leads_all (.idle hpending) hdone
    rw [List.map_eq_nil_iff, List.filter_eq_nil_iff] at hnone
    exact hnone (itemOf e) (List.mem_map_of_mem he) (decide_eq_true rfl)
  · rw [requestsOf_eq]
    exact hrun.leads_all (h₁.leads key hkey List.not_mem_nil) hdone

/-! ### Order statistics -/

lemma DemandStream.IsRequest.withoutWTP {s : DemandStream K G} {k : ℕ} {r : BookingRequestStruct K}
    (h : s.IsRequest k r) : s.IsRequest k r.withoutWTP :=
  ⟨h.generatorKey, h.departure, h.time, h.preferred⟩

/-- The list of a sound stream holds as many requests as the stream drew. -/
lemma DemandStream.Sound.emits {s : DemandStream K G} (h : s.Sound) (hs : s.Fresh) :
    ∃ rs, Emits .STA_ORD s rs ∧ rs.length = s.totalNumberOfRequestsToBeGenerated.toNat ∧
      ∀ (k : ℕ) (r : BookingRequestStruct K), rs[k]? = some r → s.IsRequest k r := by
  set N := s.totalNumberOfRequestsToBeGenerated.toNat with hN
  have hrun : ∀ j ≤ N, ∃ rs, Emits .STA_ORD (s.after (N - j)) rs ∧ rs.length = j ∧
      ∀ (k : ℕ) (r : BookingRequestStruct K), rs[k]? = some r → s.IsRequest (N - j + k) r := by
    intro j
    induction j with
    | zero =>
      refine fun _ => ⟨[], .stop ?_, rfl, by simp⟩
      rw [← Bool.not_eq_true, stillHaving_after]
      omega
    | succ j ih =>
      intro hj
      obtain ⟨rs, hrs, hlen, hmem⟩ := ih (by omega)
      have hk : ((N - (j + 1) : ℕ) : ℤ) < s.totalNumberOfRequestsToBeGenerated := by omega
      obtain ⟨r, hr, hreq⟩ := h.generateNextRequest hk s.requestDateTimeRandomGenerator
      rw [show N - (j + 1) + 1 = N - j by omega] at hr
      refine ⟨_, .next ((stillHaving_after s _).mpr hk) ⟨_, _, hr⟩ hrs, by simp [hlen], ?_⟩
      intro k r' hr'
      cases k with
      | zero =>
        cases hr'
        exact hreq.withoutWTP
      | succ k =>
        rw [show N - (j + 1) + (k + 1) = N - j + k by omega]
        exact hmem k r' hr'
  obtain ⟨rs, hrs, hlen, hmem⟩ := hrun N le_rfl
  rw [Nat.sub_self, hs.after_zero] at hrs
  exact ⟨rs, hrs, hlen, fun k r hr => by simpa using hmem k r hr⟩

section Real

variable {G Q : Type} [RandomGeneration ℝ G] [EventQueue ℝ Q] {m : DemandGenerationMethod}

/-- The requests of a list do not go back in time, from the last time of the stream on. -/
lemma Emits.isChain (hu : UniformLaw ℝ G) (he : ExponentialLaw ℝ G) {s : DemandStream ℝ G}
    {rs : List (BookingRequestStruct ℝ)} (h : Emits m s rs) :
    ∀ {ts : List DateTime}, Trail m s ts →
      (∀ t ∈ ts.getLast?, ∀ r ∈ rs.head?, t ≤ r.requestDateTime) ∧
        (rs.map BookingRequestStruct.requestDateTime).IsChain (· ≤ ·) := by
  induction h with
  | stop => simp
  | @next s s' r rs hstill hr _ ih =>
    intro ts htrail
    obtain ⟨g, g', hr⟩ := hr
    obtain ⟨htrail', hle⟩ := htrail.next hu he hstill hr
    obtain ⟨hhead, hchain⟩ := ih htrail'
    refine ⟨by simpa [BookingRequestStruct.withoutWTP] using hle, ?_⟩
    rw [List.map_cons, List.isChain_cons]
    refine ⟨fun t ht => ?_, hchain⟩
    rw [List.head?_map, Option.mem_map] at ht
    obtain ⟨r', hr', rfl⟩ := ht
    exact hhead r.requestDateTime (by simp) r' hr'

lemma Emits.pairwise (hu : UniformLaw ℝ G) (he : ExponentialLaw ℝ G) {s : DemandStream ℝ G}
    (hs : s.Fresh) {rs : List (BookingRequestStruct ℝ)} (h : Emits m s rs) :
    rs.Pairwise fun r r' => r.requestDateTime ≤ r'.requestDateTime := by
  have hchain := (h.isChain hu he (Trail.of_fresh hs)).2
  rw [List.isChain_iff_pairwise, List.pairwise_map] at hchain
  exact hchain

/-- **The main loop is a merge**: by either method, whatever the streams, the first requests and the
main loop end with an empty queue, and the requests popped are, stream by stream and in order, those
that the stream would generate alone, up to the first one that comes too late for its departure. -/
theorem popped_leading (hq : EventQueueLaw ℝ Q) (hu : UniformLaw ℝ G) (he : ExponentialLaw ℝ G)
    {w : World ℝ G Q} {R : DemandStreamKey → List (BookingRequestStruct ℝ)} (h : Merging m w R) :
    ∃ total w₁ j w', generateFirstRequests m w = .ok total w₁ ∧
      mainLoop m j w₁ = .ok ⟨⟩ w' ∧ contents w'.queue = 0 ∧
      (∀ e ∈ poppedEvents m j w₁, e.bookingRequest.generatorKey ∈ w.demandStreamList) ∧
      ∀ key ∈ w.demandStreamList,
        requestsOf key (poppedEvents m j w₁) = (R key).takeWhile isBeforeDeparture :=
  h.run hq fun key hkey => (h.emits key hkey).pairwise hu he (h.started key hkey).fresh

lemma lastMinute_merging (p : ℤ) (N : ℕ) :
    ∃ R, Merging .STA_ORD (lastMinute p N) R ∧ ∀ key, (R key).length = N ∧
      ∀ r ∈ R key, isBeforeDeparture r = true ↔ 28800 < p := by
  have hready := lastMinute_ready p N
  have hsound := hready.sound sampleKey (List.mem_singleton_self _)
  have hstarted := hready.started sampleKey (List.mem_singleton_self _)
  obtain ⟨rs, hrs, hlen, hmem⟩ := hsound.emits hstarted.fresh
  rw [lastMinute_total, Int.toNat_natCast] at hlen
  refine ⟨fun _ => rs, ⟨hready.nodup, hready.key, hready.started, fun key hkey => hrs, rfl⟩,
    fun key => ⟨hlen, fun r hr => ?_⟩⟩
  obtain ⟨k, hk⟩ := List.mem_iff_getElem?.mp hr
  rw [isBeforeDeparture_iff (hmem k r hk), lastMinute_punctual]

/-- Two requests, both punctual: both are popped. -/
theorem popped_leading_sample :
    ∃ total w₁ j w', generateFirstRequests .STA_ORD (lastMinute 36000 2) = .ok total w₁ ∧
      mainLoop .STA_ORD j w₁ = .ok ⟨⟩ w' ∧
      (requestsOf sampleKey (poppedEvents .STA_ORD j w₁)).length = 2 := by
  obtain ⟨R, hmerging, hR⟩ := lastMinute_merging 36000 2
  obtain ⟨total, w₁, j, w', hfirst, hloop, -, -, hpopped⟩ := popped_leading SortedQueue.law
    Tape.uniformLaw Tape.positiveExponentialLaw.nonneg hmerging
  refine ⟨total, w₁, j, w', hfirst, hloop, ?_⟩
  obtain ⟨hlen, hbefore⟩ := hR sampleKey
  rw [hpopped sampleKey (List.mem_singleton_self _), List.takeWhile_eq_self_iff.mpr, hlen]
  exact fun r hr => (hbefore r hr).mpr (by norm_num)

end Real

end Trademgen
