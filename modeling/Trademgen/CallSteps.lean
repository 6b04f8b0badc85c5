import Trademgen.MainLoop

/-!
What every call keeps, from what its steps keep.

All that the calls of the demand manager do is done in four steps: the flag of a stream is set, a
stream is asked for a request, an event is popped, the actual total is written. A relation that
follows these steps follows the calls, whether they return or throw.
-/

set_option linter.unusedSectionVars false

namespace Trademgen

open Faulting EventQueue DemandManager

variable {K G Q : Type} [Field K] [LinearOrder K] [FloorRing K] [Libm K] [RandomGeneration K G]
  [EventQueue K Q] {m : DemandGenerationMethod}

/-- A relation between two worlds and the events popped between them, that follows every step. -/
structure Stepwise (m : DemandGenerationMethod)
    (Rel : World K G Q → List (EventStruct K) → World K G Q → Prop) : Prop where
  refl (w : World K G Q) : Rel w [] w
  trans {w w' w'' : World K G Q} {es es' : List (EventStruct K)} :
    Rel w es w' → Rel w' es' w'' → Rel w (es ++ es') w''
  first (key : DemandStreamKey) (w : World K G Q) :
    Rel w [] (updateStream key ((w.demandStream key).setBoolFirstDateTimeRequest true) w)
  next (key : DemandStreamKey) (w : World K G Q) :
    Rel w [] (stateOf (generateNextRequest key m w))
  pop {w : World K G Q} {e : EventStruct K} {q : Q} : popEvent w.queue = some (e, q) →
    Rel w [e] { w with queue := q }
  total (n : ℤ) (w : World K G Q) : Rel w [] { w with actualTotal := n }

namespace Stepwise

variable {Rel : World K G Q → List (EventStruct K) → World K G Q → Prop} {w w' : World K G Q}
  (h : Stepwise m Rel)

include h

/-! ### The first requests -/

lemma iterateStreams (ks : List DemandStreamKey) :
    ∀ (total : ℤ) (w : World K G Q),
      Rel w [] (stateOf (DemandManager.iterateStreams m ks total w)) := by
  induction ks with
  | nil => exact fun _ w => h.refl w
  | cons key ks ih =>
    intro total w
    set w₁ := updateStream key ((w.demandStream key).setBoolFirstDateTimeRequest true) w with hw₁
    have h₁ : Rel w [] w₁ := h.first key w
    cases hstill : stillHavingRequestsToBeGenerated w₁ key m with
    | false =>
      rw [iterateStreams_skip hw₁ hstill]
      exact h.trans h₁ (ih _ w₁)
    | true =>
      have hnext := h.next key w₁
      cases hr : DemandManager.generateNextRequest key m w₁ with
      | error e w₂ =>
        rw [iterateStreams_throw hw₁ hstill hr]
        rw [hr] at hnext
        exact h.trans h₁ hnext
      | ok r w₂ =>
        rw [iterateStreams_next hw₁ hstill hr]
        rw [hr] at hnext
        exact h.trans (h.trans h₁ hnext) (ih _ w₂)

lemma generateFirstRequests (w : World K G Q) :
    Rel w [] (stateOf (DemandManager.generateFirstRequests m w)) := by
  have hloop := h.iterateStreams w.demandStreamList 0 w
  cases hrun : DemandManager.iterateStreams m w.demandStreamList 0 w with
  | error e w' =>
    have herror : DemandManager.generateFirstRequests m w = .error e w' := by
      unfold DemandManager.generateFirstRequests
      rw [get_bind, bind_error hrun]
    rw [hrun] at hloop
    rwa [herror]
  | ok total w' =>
    rw [hrun] at hloop
    rw [generateFirstRequests_ok hrun]
    exact h.trans hloop (h.total total w')

/-! ### The main loop -/

lemma mainLoopBody {e : EventStruct K} {q : Q} (hpop : popEvent w.queue = some (e, q)) :
    Rel w [e] (stateOf (DemandManager.mainLoopBody m w)) := by
  have h₁ := h.pop hpop
  set w₁ : World K G Q := { w with queue := q } with hw₁
  cases hstill : stillHavingRequestsToBeGenerated w e.bookingRequest.generatorKey m with
  | false =>
    rw [mainLoopBody_stop hpop hstill]
    exact h₁
  | true =>
    have hnext := h.next e.bookingRequest.generatorKey w₁
    have hbody : DemandManager.mainLoopBody m w = (do
        let r ← DemandManager.generateNextRequest e.bookingRequest.generatorKey m
        if Int.tdiv (r.requestDateTime - e.bookingRequest.requestDateTime) 1000 < 0 then
          throw Fault.assertion) w₁ := by
      simp only [DemandManager.mainLoopBody, get_bind, hpop, set_bind]
      rw [if_pos hstill]
    rw [hbody]
    cases hr : DemandManager.generateNextRequest e.bookingRequest.generatorKey m w₁ with
    | error f w₂ =>
      rw [bind_error hr]
      rw [hr] at hnext
      exact h.trans h₁ hnext
    | ok r w₂ =>
      rw [bind_ok hr]
      rw [hr] at hnext
      split_ifs
      · exact h.trans h₁ hnext
      · exact h.trans h₁ hnext

/-- **The main loop**, for any number of iterations. -/
theorem mainLoop (hq : EventQueueLaw K Q) (n : ℕ) :
    ∀ w : World K G Q, Rel w (poppedEvents m n w) (stateOf (DemandManager.mainLoop m n w)) := by
  induction n with
  | zero => exact fun w => h.refl w
  | succ n ih =>
    intro w
    cases hdone : isQueueDone w.queue with
    | true =>
      rw [mainLoop_done hdone, poppedEvents_done hdone]
      exact h.refl w
    | false =>
      cases hpop : popEvent w.queue with
      | none =>
        have hempty := (hq.isQueueDone w.queue).mpr (hq.popEvent_done _ hpop)
        rw [hdone] at hempty
        cases hempty
      | some p =>
        obtain ⟨e, q⟩ := p
        have hstep := h.mainLoopBody hpop
        cases hbody : DemandManager.mainLoopBody m w with
        | error f w' =>
          have hloop : DemandManager.mainLoop m (n + 1) w = .error f w' := by
            simp only [DemandManager.mainLoop, get_bind, hdone, Bool.false_eq_true, if_false]
            exact bind_error hbody
          rw [hloop, poppedEvents_throw hdone hpop hbody]
          rwa [hbody] at hstep
        | ok u w' =>
          rw [mainLoop_step hdone hbody, poppedEvents_step hdone hpop hbody,
            ← List.singleton_append]
          rw [hbody] at hstep
          exact h.trans hstep (ih w')

end Stepwise

/-! ### Service calls -/

/-- The event that a call pops, if it pops any. -/
def poppedBy (c : ServiceCall) (w : World K G Q) : List (EventStruct K) :=
  match c, EventQueue.popEvent w.queue with
  | .popEvent, some (e, _) => [e]
  | _, _ => []

/-- The events that a sequence of service calls pops, in order. -/
def servedEvents (m : DemandGenerationMethod) :
    List ServiceCall → World K G Q → List (EventStruct K)
  | [], _ => []
  | c :: cs, w => poppedBy c w ++ match serve m c w with
    | .ok _ w' => servedEvents m cs w'
    | .error _ _ => []

namespace Stepwise

variable {Rel : World K G Q → List (EventStruct K) → World K G Q → Prop} (h : Stepwise m Rel)

include h

lemma serve (c : ServiceCall) (w : World K G Q) :
    Rel w (poppedBy c w) (stateOf (DemandManager.serve m c w)) := by
  cases c with
  | popEvent =>
    cases hpop : EventQueue.popEvent w.queue with
    | none =>
      have hnone : poppedBy .popEvent w = [] := by simp [poppedBy, hpop]
      rw [serve_popEvent_none hpop, hnone]
      exact h.refl w
    | some p =>
      have hone : poppedBy .popEvent w = [p.1] := by simp [poppedBy, hpop]
      rw [serve_popEvent_some hpop, hone]
      exact h.pop hpop
  | generateNextRequest key =>
    by_cases hcall : key ∈ w.demandStreamList ∧ stillHavingRequestsToBeGenerated w key m = true
    · have hnext := h.next key w
      cases hr : DemandManager.generateNextRequest key m w with
      | error e w' =>
        rw [serve_next_throw hcall.1 hcall.2 hr]
        rwa [hr] at hnext
      | ok r w' =>
        rw [serve_next hcall.1 hcall.2 hr]
        rwa [hr] at hnext
    · rw [serve_next_skip hcall]
      exact h.refl w
  | generateFirstRequests =>
    have hfirst := h.generateFirstRequests w
    cases hr : DemandManager.generateFirstRequests m w with
    | error e w' =>
      have hserve : DemandManager.serve m .generateFirstRequests w = .error e w' := by
        simp only [DemandManager.serve]
        exact bind_error hr
      rw [hserve]
      rwa [hr] at hfirst
    | ok total w' =>
      rw [serve_first hr]
      rwa [hr] at hfirst

/-- **Any sequence of service calls**. -/
theorem serveAll (cs : List ServiceCall) :
    ∀ w : World K G Q, Rel w (servedEvents m cs w) (stateOf (DemandManager.serveAll m cs w)) := by
  induction cs with
  | nil => exact fun w => h.refl w
  | cons c cs ih =>
    intro w
    have hcall := h.serve c w
    cases hserve : DemandManager.serve m c w with
    | error e w' =>
      have hevents : servedEvents m (c :: cs) w = poppedBy c w := by simp [servedEvents, hserve]
      rw [hevents, DemandManager.serveAll, bind_error hserve]
      rwa [hserve] at hcall
    | ok n w' =>
      have hevents : servedEvents m (c :: cs) w = poppedBy c w ++ servedEvents m cs w' := by
        simp [servedEvents, hserve]
      rw [hserve] at hcall
      rw [hevents, DemandManager.serveAll, bind_ok hserve]
      have hrest := ih w'
      cases hall : DemandManager.serveAll m cs w' with
      | error e w'' =>
        rw [bind_error hall]
        rw [hall] at hrest
        exact h.trans hcall hrest
      | ok k w'' =>
        rw [bind_ok hall]
        rw [hall] at hrest
        exact h.trans hcall hrest

end Stepwise

end Trademgen
