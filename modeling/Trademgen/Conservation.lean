import Trademgen.PoissonRun
import Trademgen.CallSteps

/-!
No request is lost or duplicated between the streams and those who pop events.

A request that was generated is in the queue or was popped, once, unless it came too late for its
departure. This holds of every call, by either method, whether the call returns or throws.
-/

set_option linter.unusedSectionVars false

namespace Trademgen

open Faulting EventQueue DemandManager DemandStream

variable {K G Q : Type} [Field K] [LinearOrder K] [IsStrictOrderedRing K] [FloorRing K] [Libm K]
  [RandomGeneration K G] [EventQueue K Q] {m : DemandGenerationMethod}

/-- The requests of the events popped. -/
def requestsIn (es : List (EventStruct K)) : Multiset (BookingRequestStruct K) :=
  (es.map EventStruct.bookingRequest : List _)

/-- Between two worlds, between which some events were popped: of the requests generated since,
those dated before their departure were put in the queue, and no other ones. -/
def Balanced (w : World K G Q) (popped : List (EventStruct K)) (w' : World K G Q) : Prop :=
  ∃ new : List (BookingRequestStruct K), w'.history = w.history ++ new ∧
    w'.requests + requestsIn popped = w.requests + (new.filter isBeforeDeparture : List _)

variable {w w' : World K G Q}

/-- Nothing changed of the queue and of the history. -/
lemma Balanced.same (hqueue : w'.queue = w.queue) (hhistory : w'.history = w.history) :
    Balanced w [] w' := by
  refine ⟨[], by rw [hhistory, List.append_nil], ?_⟩
  unfold World.requests
  rw [hqueue]
  rfl

lemma balanced_pop (hq : EventQueueLaw K Q) {e : EventStruct K} {q : Q}
    (hpop : popEvent w.queue = some (e, q)) :
    Balanced w [e] ({ w with queue := q } : World K G Q) := by
  refine ⟨[], by rw [List.append_nil], ?_⟩
  have hone : requestsIn [e] = {e.bookingRequest} := rfl
  unfold World.requests
  rw [(hq.popEvent _ _ _ hpop).1, Multiset.map_cons, hone, add_comm, Multiset.singleton_add]
  exact (add_zero _).symm

/-- **A request** is generated and put in the queue, or lost for its date. -/
lemma balanced_next (hq : EventQueueLaw K Q) (key : DemandStreamKey) (w : World K G Q) :
    Balanced w [] (stateOf (generateNextRequest key m w)) := by
  cases hr : generateNextRequest key m w with
  | error e w' =>
    obtain ⟨s, rfl⟩ := generateNextRequest_error hr
    exact .same rfl rfl
  | ok r w' =>
    obtain ⟨g, s, -, rfl⟩ := DemandManager.generateNextRequest_eq_ok.mp hr
    refine ⟨[r], afterRequest_history, ?_⟩
    have hnone : requestsIn ([] : List (EventStruct K)) = 0 := rfl
    rw [stateOf_ok, hnone, add_zero]
    cases hbefore : isBeforeDeparture r with
    | true =>
      rw [requests_afterRequest_before hq hbefore, List.filter_cons_of_pos hbefore,
        ← Multiset.singleton_add, add_comm]
      rfl
    | false =>
      rw [requests_afterRequest_late hbefore, List.filter_cons_of_neg (by simp [hbefore])]
      exact (add_zero _).symm

lemma stepwise_balanced (hq : EventQueueLaw K Q) (m : DemandGenerationMethod) :
    Stepwise m (Balanced (K := K) (G := G) (Q := Q)) where
  refl w := .same rfl rfl
  first key w := .same rfl rfl
  next key w := balanced_next hq key w
  pop hpop := balanced_pop hq hpop
  total n w := .same rfl rfl
  trans {w w' w'' es es'} h h' := by
    obtain ⟨new, hhistory, hqueue⟩ := h
    obtain ⟨new', hhistory', hqueue'⟩ := h'
    refine ⟨new ++ new', by rw [hhistory', hhistory, List.append_assoc], ?_⟩
    have happend : requestsIn (es ++ es') = requestsIn es + requestsIn es' := by
      unfold requestsIn
      rw [List.map_append, Multiset.coe_add]
    rw [List.filter_append, ← Multiset.coe_add, happend]
    calc w''.requests + (requestsIn es + requestsIn es')
        = w''.requests + requestsIn es' + requestsIn es := by rw [add_assoc, add_comm (requestsIn es)]
      _ = w'.requests + requestsIn es + (new'.filter isBeforeDeparture : List _) := by
          rw [hqueue', add_right_comm]
      _ = w.requests + ((new.filter isBeforeDeparture : List _)
            + (new'.filter isBeforeDeparture : List _)) := by rw [hqueue, add_assoc]

/-- **Nothing is lost or duplicated**: after any service calls, and after any number of iterations of
the main loop, whether they return or throw, the queue and the events popped hold together what the
queue held before and every request generated since that is dated before its departure, each of them
once. -/
theorem requests_conserved (hq : EventQueueLaw K Q) (m : DemandGenerationMethod)
    (w : World K G Q) :
    (∀ cs, Balanced w (servedEvents m cs w) (stateOf (serveAll m cs w))) ∧
      ∀ n, Balanced w (poppedEvents m n w) (stateOf (mainLoop m n w)) :=
  ⟨fun cs => (stepwise_balanced hq m).serveAll cs w,
    fun n => (stepwise_balanced hq m).mainLoop hq n w⟩

theorem requests_conserved_sample :
    Balanced (lastMinute 36000 2)
      (servedEvents .STA_ORD [.generateFirstRequests, .popEvent] (lastMinute 36000 2))
      (stateOf (serveAll .STA_ORD [.generateFirstRequests, .popEvent] (lastMinute 36000 2))) :=
  (requests_conserved SortedQueue.law .STA_ORD (lastMinute 36000 2)).1 _

end Trademgen
