import Trademgen.MainLoop

/-!
The clock of the main loop.

The queue may stamp an event later than its request, so that no two events have the same stamp. By
its own sanity check the loop does not accept a request dated before the one popped: whatever the
streams do, it never runs ahead of a request by more than the queue delays one.
-/

set_option linter.unusedSectionVars false

namespace Trademgen

open Faulting EventQueue DemandManager DemandStream
open EventLoop (Stamped Takes)

variable {K G Q : Type} [Field K] [LinearOrder K] [IsStrictOrderedRing K] [FloorRing K] [Libm K]
  [RandomGeneration K G] [EventQueue K Q] {m : DemandGenerationMethod}

/-! ### Whole milliseconds -/

namespace DemandStream

lemma dvd_time (s : DemandStream K G) (d : K) :
    (1000 : ℤ) ∣ s.departureDateTime + convertFloatIntoDuration d := by
  unfold departureDateTime convertFloatIntoDuration DateTime.ptime DateTime.oneDay DateTime.hours
    DateTime.seconds DateTime.millisec
  dsimp only
  omega

lemma dvd_walk {s s' : DemandStream K G} {v : Visit K} (h : s.walk = .ok v s') :
    ∀ t, (v = .stop t ∨ ∃ r x y, v = .accept t r x y) → (1000 : ℤ) ∣ t := by
  unfold walk at h
  dsimp only at h
  repeat' split at h
  all_goals cases h
  · rintro t (h | ⟨r, x, y, h⟩)
    · cases h
      exact dvd_time s 1
    · cases h
  · rintro t (h | ⟨r, x, y, h⟩)
    · cases h
    · cases h
      exact dvd_time s _
  · rintro t (h | ⟨r, x, y, h⟩)
    · cases h
    · cases h

lemma dvd_visit {s s' : DemandStream K G} {v : Visit K} (h : visitPoissonProcess s = .ok v s') :
    ∀ t, (v = .stop t ∨ ∃ r x y, v = .accept t r x y) → (1000 : ℤ) ∣ t := by
  rw [visitPoissonProcess_eq] at h
  cases hp : s.position with
  | error e =>
    rw [hp] at h
    cases h
  | ok x =>
    rw [hp] at h
    exact dvd_walk h

lemma Call.dvd {s s' : DemandStream K G} {vs : List (Visit K)} {t : DateTime}
    (h : Call s vs t s') : (1000 : ℤ) ∣ t := by
  induction h with
  | stop hv => exact dvd_visit hv _ (.inl rfl)
  | accept hv => exact dvd_visit hv _ (.inr ⟨_, _, _, rfl⟩)
  | cross _ _ ih => exact ih

/-- A request is dated on a whole millisecond, by either method. -/
lemma dvd_requestDateTime {s s' : DemandStream K G} {g g' : G} {r : BookingRequestStruct K}
    (h : generateNextRequest g m s = .ok (r, g') s') : (1000 : ℤ) ∣ r.requestDateTime := by
  obtain ⟨s₁, g₁, ht, -⟩ := generateNextRequest_time h
  cases m with
  | STA_ORD =>
    obtain ⟨d, -, htime, -⟩ := generateTimeOfRequestStatisticsOrder_ok ht
    rw [htime]
    exact dvd_time s d
  | POI_PRO =>
    obtain ⟨vs, hcall⟩ := generateTimeOfRequestPoissonProcess_eq_ok.mp ht
    exact hcall.dvd

end DemandStream

/-! ### The delay of the queue -/

/-- The queue stamps an event with the time it comes with, or later: by at most `δ` for each of the
events that are there already. -/
def QueueDelay (K Q : Type) [EventQueue K Q] (δ : Duration) : Prop :=
  ∀ (e : EventStruct K) (q : Q), ∃ t,
    contents (addEvent e q) = ⟨t, e.bookingRequest⟩ ::ₘ contents q ∧
      e.eventTimeStamp ≤ t ∧ t ≤ e.eventTimeStamp + δ * Multiset.card (contents q)

lemma SortedQueue.queueDelay : QueueDelay K (SortedQueue K) 0 := by
  intro e q
  refine ⟨e.eventTimeStamp, Multiset.coe_eq_coe.mpr (perm_insertEvent e q.events), le_rfl, ?_⟩
  rw [zero_mul, add_zero]

/-- When the request of an event is dated. -/
def dueTime (e : EventStruct K) : DateTime := e.bookingRequest.requestDateTime

/-- At most `n` events wait in the queue, dated on whole milliseconds and stamped no later than the
delay allows. -/
structure Clocked (δ : Duration) (N n : ℕ) (w : World K G Q) : Prop where
  card : Multiset.card (contents w.queue) ≤ n
  stamped : ∀ e ∈ contents w.queue, Stamped dueTime EventStruct.eventTimeStamp (δ * N) e
  dvd : ∀ e ∈ contents w.queue, (1000 : ℤ) ∣ dueTime e

variable {δ : Duration} {N n : ℕ} {w w' : World K G Q} {key : DemandStreamKey}

lemma Clocked.mono {n' : ℕ} (h : Clocked δ N n w) (hn : n ≤ n') : Clocked δ N n' w :=
  ⟨h.card.trans hn, h.stamped, h.dvd⟩

/-- What a request puts in the queue: nothing, or itself. -/
lemma Clocked.request (hd : QueueDelay K Q δ) (hδ : 0 ≤ δ) (h : Clocked δ N n w) (hn : n < N)
    {r : BookingRequestStruct K} (hr : DemandManager.generateNextRequest key m w = .ok r w') :
    Clocked δ N (n + 1) w' ∧ ∃ A : Multiset (EventStruct K),
      contents w'.queue = contents w.queue + A ∧
        ∀ a ∈ A, dueTime a = r.requestDateTime ∧
          Stamped dueTime EventStruct.eventTimeStamp (δ * N) a := by
  obtain ⟨g, s, hgen, rfl⟩ := DemandManager.generateNextRequest_eq_ok.mp hr
  have hdvd := dvd_requestDateTime hgen
  cases hbefore : isBeforeDeparture r with
  | false =>
    have hqueue : contents (afterRequest key r g s w).queue = contents w.queue :=
      congrArg contents (afterRequest_late hbefore).1
    refine ⟨⟨?_, ?_, ?_⟩, 0, by rw [hqueue, add_zero], by simp⟩
    · rw [hqueue]
      exact h.card.trans (Nat.le_succ n)
    · rw [hqueue]
      exact h.stamped
    · rw [hqueue]
      exact h.dvd
  | true =>
    obtain ⟨t, ht, h0, h1⟩ := hd (EventStruct.make r) w.queue
    have hqueue : contents (afterRequest key r g s w).queue = ⟨t, r⟩ ::ₘ contents w.queue := by
      unfold afterRequest dispatch
      rw [if_pos hbefore]
      exact ht
    have hcard : (Multiset.card (contents w.queue) : ℤ) ≤ N := by
      have := h.card
      omega
    have hstamped : Stamped dueTime EventStruct.eventTimeStamp (δ * N) (⟨t, r⟩ : EventStruct K) :=
      ⟨h0, h1.trans (Int.add_le_add_left (mul_le_mul_of_nonneg_left hcard hδ) _)⟩
    refine ⟨⟨?_, ?_, ?_⟩, {⟨t, r⟩}, ?_, ?_⟩
    · rw [hqueue, Multiset.card_cons]
      exact Nat.succ_le_succ h.card
    · rw [hqueue]
      exact Multiset.forall_mem_cons.mpr ⟨hstamped, h.stamped⟩
    · rw [hqueue]
      exact Multiset.forall_mem_cons.mpr ⟨hdvd, h.dvd⟩
    · rw [hqueue, ← Multiset.singleton_add, add_comm]
    · intro a ha
      rw [Multiset.mem_singleton.mp ha]
      exact ⟨rfl, hstamped⟩

/-- Every stream puts at most one event in the queue while the first requests are generated. -/
lemma Clocked.iterateStreams (hd : QueueDelay K Q δ) (hδ : 0 ≤ δ) {ks : List DemandStreamKey} :
    ∀ {n : ℕ} {w : World K G Q} {total total' : ℤ}, Clocked δ N n w → n + ks.length ≤ N →
      DemandManager.iterateStreams m ks total w = .ok total' w' →
      Clocked δ N (n + ks.length) w' := by
  induction ks with
  | nil =>
    intro n w total total' h _ hrun
    cases hrun
    exact h
  | cons key ks ih =>
    intro n w total total' h hN hrun
    rw [List.length_cons] at hN ⊢
    set w₁ := updateStream key ((w.demandStream key).setBoolFirstDateTimeRequest true) w with hw₁
    have h₁ : Clocked δ N n w₁ := ⟨h.card, h.stamped, h.dvd⟩
    cases hstill : stillHavingRequestsToBeGenerated w₁ key m with
    | false =>
      rw [iterateStreams_skip hw₁ hstill] at hrun
      exact (ih h₁ (by omega) hrun).mono (by omega)
    | true =>
      cases hr : DemandManager.generateNextRequest key m w₁ with
      | error e w₂ =>
        rw [iterateStreams_throw hw₁ hstill hr] at hrun
        cases hrun
      | ok r w₂ =>
        rw [iterateStreams_next hw₁ hstill hr] at hrun
        obtain ⟨h₂, -⟩ := h₁.request hd hδ (by omega) hr
        exact (ih h₂ (by omega) hrun).mono (by omega)

/-! ### The loop -/

/-- An iteration that returns: the event popped is the last of its stream, or the next request is
not dated before it. -/
lemma mainLoopBody_ok {e : EventStruct K} {q : Q} (hpop : popEvent w.queue = some (e, q))
    (h : mainLoopBody m w = .ok ⟨⟩ w') :
    w' = { w with queue := q } ∨ ∃ r,
      DemandManager.generateNextRequest e.bookingRequest.generatorKey m { w with queue := q }
        = .ok r w' ∧
      ¬ Int.tdiv (r.requestDateTime - e.bookingRequest.requestDateTime) 1000 < 0 := by
  cases hstill : stillHavingRequestsToBeGenerated w e.bookingRequest.generatorKey m with
  | false =>
    rw [mainLoopBody_stop hpop hstill] at h
    cases h
    exact .inl rfl
  | true =>
    simp only [mainLoopBody, get_bind, hpop, set_bind] at h
    rw [if_pos hstill] at h
    obtain ⟨r, w₁, hr, h⟩ := bind_eq_ok.mp h
    split_ifs at h with hlow
    · cases h
    · cases h
      exact .inr ⟨r, hr, hlow⟩

/-- A difference of whole milliseconds that does not truncate below zero is not negative. -/
lemma le_of_tdiv {a b : ℤ} (ha : 1000 ∣ a) (hb : 1000 ∣ b) (h : ¬ Int.tdiv (b - a) 1000 < 0) :
    a ≤ b := by
  obtain ⟨c, hc⟩ := dvd_sub hb ha
  rw [hc, Int.mul_tdiv_cancel_left _ (by norm_num)] at h
  omega

/-- What the loop pops is taken from the queue in the order of the stamps. -/
lemma Clocked.takes (hq : EventQueueLaw K Q) (hd : QueueDelay K Q δ) (hδ : 0 ≤ δ) :
    ∀ (j : ℕ) {w : World K G Q}, Clocked δ N N w →
      Takes dueTime EventStruct.eventTimeStamp (δ * N) (contents w.queue) (poppedEvents m j w) := by
  intro j
  induction j with
  | zero => exact fun _ => .nil _
  | succ j ih =>
    intro w h
    cases hdone : isQueueDone w.queue with
    | true =>
      rw [poppedEvents_done hdone]
      exact .nil _
    | false =>
      cases hpop : popEvent w.queue with
      | none =>
        have hempty := (hq.isQueueDone w.queue).mpr (hq.popEvent_done _ hpop)
        rw [hdone] at hempty
        cases hempty
      | some p =>
        obtain ⟨e, q⟩ := p
        obtain ⟨hcontents, hleast⟩ := hq.popEvent _ _ _ hpop
        have hcard : Multiset.card (contents q) + 1 ≤ N := by
          have := h.card
          rwa [hcontents, Multiset.card_cons] at this
        have h₁ : Clocked δ N (N - 1) ({ w with queue := q } : World K G Q) := by
          refine ⟨Nat.le_sub_one_of_lt hcard, fun x hx => h.stamped x ?_, fun x hx => h.dvd x ?_⟩ <;>
          · rw [hcontents]
            exact Multiset.mem_cons_of_mem hx
        have hdvd : (1000 : ℤ) ∣ e.bookingRequest.requestDateTime :=
          h.dvd e (by rw [hcontents]; exact Multiset.mem_cons_self _ _)
        rw [hcontents]
        cases hbody : mainLoopBody m w with
        | error f w' =>
          rw [poppedEvents_throw hdone hpop hbody]
          exact .cons (A := 0) hleast (by simp) (.nil _)
        | ok u w' =>
          rw [poppedEvents_step hdone hpop hbody]
          rcases mainLoopBody_ok hpop hbody with rfl | ⟨r, hr, hlow⟩
          · refine .cons (A := 0) hleast (by simp) ?_
            rw [add_zero]
            exact ih (h₁.mono (Nat.sub_le N 1))
          · obtain ⟨gen, s, hgen, -⟩ := DemandManager.generateNextRequest_eq_ok.mp hr
            have hle := le_of_tdiv hdvd (dvd_requestDateTime hgen) hlow
            obtain ⟨h₂, A, hA, hnew⟩ := h₁.request hd hδ (by omega) hr
            refine .cons (A := A) hleast (fun a ha => ?_) ?_
            · obtain ⟨hdue, hstamped⟩ := hnew a ha
              exact ⟨hle.trans_eq hdue.symm, hstamped⟩
            · rw [← hA]
              exact ih (h₂.mono (by omega))

/-- **The clock**: from the first requests on, for any number of iterations of the main loop, an
event popped after another one is not dated before the stamp of the other by more than the delay of
the queue for one event, times the number of streams. -/
theorem popped_clock (hq : EventQueueLaw K Q) (hd : QueueDelay K Q δ) (hδ : 0 ≤ δ)
    {w₀ w₁ : World K G Q} {total : ℤ} (hempty : contents w₀.queue = 0)
    (hfirst : generateFirstRequests m w₀ = .ok total w₁) (j : ℕ) :
    (poppedEvents m j w₁).Pairwise fun e e' => e.eventTimeStamp
      ≤ e'.bookingRequest.requestDateTime + δ * w₀.demandStreamList.length := by
  unfold generateFirstRequests at hfirst
  rw [get_bind] at hfirst
  obtain ⟨_, w', hrun, hset⟩ := bind_eq_ok.mp hfirst
  cases hset
  have h₀ : Clocked δ w₀.demandStreamList.length 0 w₀ :=
    ⟨by rw [hempty]; rfl, by simp [hempty], by simp [hempty]⟩
  obtain ⟨hcard, hstamped, hdvd⟩ := h₀.iterateStreams hd hδ (by omega) hrun
  rw [Nat.zero_add] at hcard
  have h₁ : Clocked δ w₀.demandStreamList.length w₀.demandStreamList.length
      ({ w' with actualTotal := total } : World K G Q) := ⟨hcard, hstamped, hdvd⟩
  exact (h₁.takes hq hd hδ j).clock hstamped

/-- A queue that stamps no event later: the requests popped do not go back in time. -/
theorem popped_clock_sample :
    ∃ total w₁, generateFirstRequests .STA_ORD (lastMinute 36000 2) = .ok total w₁ ∧
      (poppedEvents .STA_ORD 2 w₁).Pairwise fun e e' =>
        e.eventTimeStamp ≤ e'.bookingRequest.requestDateTime + 0 * 1 := by
  obtain ⟨total, w₁, hfirst, -⟩ := accounts_first SortedQueue.law (lastMinute_ready 36000 2) rfl
    fun _ _ => rfl
  exact ⟨total, w₁, hfirst,
    popped_clock SortedQueue.law SortedQueue.queueDelay le_rfl rfl hfirst 2⟩

end Trademgen
