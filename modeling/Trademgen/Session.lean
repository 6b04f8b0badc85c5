import Trademgen.Shell

/-!
Sessions of the shell, whatever is typed.

What a session does to the world is what a sequence of service calls and resets does. On streams
that no draw fails for, none of these calls throws, and a session can only be kept from its end by a
`generate_all_br` that never runs out of requests.
-/

set_option linter.unusedSectionVars false

namespace Trademgen

open Faulting EventQueue DemandManager DemandStream Shell

variable {K G Q : Type} [Field K] [LinearOrder K] [FloorRing K] [Libm K] [RandomGeneration K G]
  [EventQueue K Q] [EventManagerReset Q] {m : DemandGenerationMethod}

namespace Shell

/-! ### The calls of a session -/

/-- What the shell asks the service for. -/
inductive ShellCall
  | serve (c : ServiceCall)
  | reset
  deriving DecidableEq

def runCall (m : DemandGenerationMethod) : ShellCall → EStateM Fault (World K G Q) ℕ
  | .serve c => DemandManager.serve m c
  | .reset => do
    modify DemandManager.reset
    return 0

/-- The calls, one after the other, with the number of events popped. -/
def runCalls (m : DemandGenerationMethod) : List ShellCall → EStateM Fault (World K G Q) ℕ
  | [] => return 0
  | c :: cs => do
    let n ← runCall m c
    let k ← runCalls m cs
    return n + k

/-- What was done to the world is what the calls do; turns may have run out after them. -/
inductive Does {α : Type} (m : DemandGenerationMethod) (w : World K G Q) (cs : List ShellCall) :
    EStateM.Result Fault (World K G Q) α → Prop
  | ok {a k w'} : runCalls m cs w = .ok k w' → Does m w cs (.ok a w')
  | cut {k w'} : runCalls m cs w = .ok k w' → Does m w cs (.error .cut w')
  | error {e w'} : runCalls m cs w = .error e w' → Does m w cs (.error e w')

variable {w w' : World K G Q} {cs : List ShellCall}

lemma runCalls_append {k : ℕ} (h : runCalls m cs w = .ok k w') (cs' : List ShellCall) :
    (∀ k' w'', runCalls m cs' w' = .ok k' w'' → ∃ k'', runCalls m (cs ++ cs') w = .ok k'' w'') ∧
      ∀ e w'', runCalls m cs' w' = .error e w'' → runCalls m (cs ++ cs') w = .error e w'' := by
  induction cs generalizing w k with
  | nil =>
    cases h
    exact ⟨fun k' w'' h' => ⟨k', h'⟩, fun e w'' h' => h'⟩
  | cons c cs ih =>
    obtain ⟨n, w₁, hc, hrest⟩ := bind_eq_ok.mp h
    obtain ⟨k₁, w₂, hcs, hpure⟩ := bind_eq_ok.mp hrest
    cases hpure
    obtain ⟨hok, herror⟩ := ih hcs
    refine ⟨fun k' w'' h' => ?_, fun e w'' h' => ?_⟩
    · obtain ⟨k'', hall⟩ := hok k' w'' h'
      refine ⟨n + k'', ?_⟩
      rw [List.cons_append, runCalls, bind_ok hc, bind_ok hall]
      rfl
    · rw [List.cons_append, runCalls, bind_ok hc, bind_error (herror e w'' h')]

section Does

variable {α β : Type}

lemma does_nil {x : EStateM Fault (World K G Q) α} {a : α} (h : x w = .ok a w) :
    Does m w [] (x w) := by
  rw [h]
  exact .ok (k := 0) rfl

/-- A call of the service. -/
lemma does_call {c : ShellCall} {x : EStateM Fault (World K G Q) α}
    (hok : ∀ a w', x w = .ok a w' → ∃ n, runCall m c w = .ok n w')
    (herror : ∀ e w', x w = .error e w' → runCall m c w = .error e w') : Does m w [c] (x w) := by
  cases hx : x w with
  | ok a w' =>
    obtain ⟨n, hn⟩ := hok a w' hx
    refine .ok (k := n) ?_
    rw [runCalls, bind_ok hn]
    rfl
  | error e w' =>
    refine .error ?_
    rw [runCalls, bind_error (herror e w' hx)]

/-- One after the other. -/
lemma Does.bind {x : EStateM Fault (World K G Q) α} {f : α → EStateM Fault (World K G Q) β}
    (h : Does m w cs (x w)) (hf : ∀ a w', x w = .ok a w' → ∃ cs', Does m w' cs' (f a w')) :
    ∃ cs', Does m w cs' ((x >>= f) w) := by
  cases hx : x w with
  | error e w' =>
    rw [bind_error hx]
    rw [hx] at h
    cases h with
    | cut hcalls => exact ⟨cs, .cut hcalls⟩
    | error hcalls => exact ⟨cs, .error hcalls⟩
  | ok a w' =>
    rw [bind_ok hx]
    rw [hx] at h
    cases h with
    | ok hcalls =>
      obtain ⟨cs', hrest⟩ := hf a w' hx
      refine ⟨cs ++ cs', ?_⟩
      obtain ⟨hok, herror⟩ := runCalls_append hcalls cs'
      cases hfx : f a w' with
      | ok b w'' =>
        rw [hfx] at hrest
        cases hrest with
        | ok hcalls' =>
          obtain ⟨k, hall⟩ := hok _ _ hcalls'
          exact .ok hall
      | error e w'' =>
        rw [hfx] at hrest
        cases hrest with
        | cut hcalls' =>
          obtain ⟨k, hall⟩ := hok _ _ hcalls'
          exact .cut hall
        | error hcalls' => exact .error (herror _ _ hcalls')

end Does

/-- A request of a stream that has any left. -/
lemma does_next {key : DemandStreamKey} (hkey : key ∈ w.demandStreamList)
    (hstill : stillHavingRequestsToBeGenerated w key m = true) :
    Does m w [.serve (.generateNextRequest key)] (DemandManager.generateNextRequest key m w) :=
  does_call (fun _ _ hr => ⟨0, serve_next hkey hstill hr⟩)
    fun _ _ hr => serve_next_throw hkey hstill hr

lemma demandStreamList_next {key : DemandStreamKey} {r : BookingRequestStruct K}
    (h : DemandManager.generateNextRequest key m w = .ok r w') :
    w'.demandStreamList = w.demandStreamList := by
  obtain ⟨g, s, -, rfl⟩ := DemandManager.generateNextRequest_eq_ok.mp h
  exact afterRequest_demandStreamList

lemma does_generateAll {key : DemandStreamKey} (n : ℕ) :
    ∀ {w : World K G Q} (k : ℕ), key ∈ w.demandStreamList →
      ∃ cs, Does m w cs (generateAll m key n k w) := by
  induction n with
  | zero => exact fun {w} _ _ => ⟨[], .cut (k := 0) rfl⟩
  | succ n ih =>
    intro w k hkey
    rw [generateAll, get_bind]
    cases hstill : stillHavingRequestsToBeGenerated w key m with
    | false => exact ⟨[], does_nil (a := k) rfl⟩
    | true =>
      exact (does_next hkey hstill).bind fun r w' hr =>
        ih (k + 1) (demandStreamList_next hr ▸ hkey)

section Display

variable [DateFormat] [EventDisplay K Q]

section Stream

variable {ts : List String}

lemma generateNextBR_wrong (h : getEventGenerator w (Shell.toString ts) = none) :
    generateNextBR m ts w = .ok (wrongDemandStreamKey w (Shell.toString ts)) w := by
  simp only [generateNextBR, get_bind, h]
  rfl

lemma generateAllBR_wrong {n : ℕ} (h : getEventGenerator w (Shell.toString ts) = none) :
    generateAllBR m n ts w = .ok (wrongDemandStreamKey w (Shell.toString ts)) w := by
  simp only [generateAllBR, get_bind, h]
  rfl

variable {key : DemandStreamKey} (h : getEventGenerator w (Shell.toString ts) = some key)

include h

lemma generateNextBR_done (hstill : stillHavingRequestsToBeGenerated w key m = false) :
    generateNextBR m ts w = .ok (noMoreEventToGenerate (Shell.toString ts)) w := by
  simp only [generateNextBR, get_bind, h, hstill, Bool.false_eq_true, if_false]
  rfl

lemma generateNextBR_next (hstill : stillHavingRequestsToBeGenerated w key m = true) :
    generateNextBR m ts w = (DemandManager.generateNextRequest key m >>= fun _ =>
      pure (oneMoreEventGenerated (Shell.toString ts))) w := by
  simp only [generateNextBR, get_bind, h, hstill, if_true]

lemma generateAllBR_done {n : ℕ} (hstill : stillHavingRequestsToBeGenerated w key m = false) :
    generateAllBR m n ts w = .ok (noMoreEventToGenerate (Shell.toString ts)) w := by
  simp only [generateAllBR, get_bind, h, hstill, Bool.false_eq_true, if_false]
  rfl

lemma generateAllBR_all {n : ℕ} (hstill : stillHavingRequestsToBeGenerated w key m = true) :
    generateAllBR m n ts w = (generateAll m key n 0 >>= fun lNumberOfRequests =>
      pure (moreEventsGenerated lNumberOfRequests (Shell.toString ts))) w := by
  simp only [generateAllBR, get_bind, h, hstill, if_true]

end Stream

lemma does_generateNextBR (ts : List String) (w : World K G Q) :
    ∃ cs, Does m w cs (generateNextBR m ts w) := by
  cases hget : getEventGenerator w (Shell.toString ts) with
  | none => exact ⟨[], does_nil (generateNextBR_wrong hget)⟩
  | some key =>
    obtain ⟨hkey, -⟩ := mem_of_getEventGenerator hget
    cases hstill : stillHavingRequestsToBeGenerated w key m with
    | false => exact ⟨[], does_nil (generateNextBR_done hget hstill)⟩
    | true =>
      rw [generateNextBR_next hget hstill]
      exact (does_next hkey hstill).bind fun _ _ _ => ⟨[], does_nil rfl⟩

lemma does_generateAllBR (n : ℕ) (ts : List String) (w : World K G Q) :
    ∃ cs, Does m w cs (generateAllBR m n ts w) := by
  cases hget : getEventGenerator w (Shell.toString ts) with
  | none => exact ⟨[], does_nil (generateAllBR_wrong hget)⟩
  | some key =>
    obtain ⟨hkey, -⟩ := mem_of_getEventGenerator hget
    cases hstill : stillHavingRequestsToBeGenerated w key m with
    | false => exact ⟨[], does_nil (generateAllBR_done hget hstill)⟩
    | true =>
      obtain ⟨cs, hall⟩ := does_generateAll (m := m) n 0 hkey
      rw [generateAllBR_all hget hstill]
      exact hall.bind fun _ _ _ => ⟨[], does_nil rfl⟩

lemma next_done (h : isQueueDone w.queue = true) : (next : EStateM Fault (World K G Q) String) w
    = .ok "Next\nThe event queue is empty: no event can be popped out.\n" w := by
  simp only [next, get_bind, h, if_true]
  rfl

lemma next_popped {e : EventStruct K} {q : Q} (h : isQueueDone w.queue = false)
    (hpop : popEvent w.queue = some (e, q)) :
    (next : EStateM Fault (World K G Q) String) w
      = .ok ("Next\nPoped event: '" ++ EventDisplay.describe Q e ++ "'.\n")
        { w with queue := q } := by
  simp only [next, get_bind, h, hpop, Bool.false_eq_true, if_false]
  rfl

/-- The queue is done, or an event can be popped. -/
lemma exists_popEvent_of_not_done (hq : EventQueueLaw K Q) (h : isQueueDone w.queue = false) :
    ∃ e q, popEvent w.queue = some (e, q) := by
  cases hpop : popEvent w.queue with
  | none =>
    have hempty := (hq.isQueueDone w.queue).mpr (hq.popEvent_done _ hpop)
    rw [h] at hempty
    cases hempty
  | some p => exact ⟨p.1, p.2, rfl⟩

lemma does_pop (hq : EventQueueLaw K Q) (w : World K G Q) :
    ∃ cs, Does m w cs ((next : EStateM Fault (World K G Q) String) w) := by
  cases hdone : isQueueDone w.queue with
  | true => exact ⟨[], does_nil (next_done hdone)⟩
  | false =>
    obtain ⟨e, q, hpop⟩ := exists_popEvent_of_not_done hq hdone
    have hnext := next_popped hdone hpop
    refine ⟨[.serve .popEvent], does_call (fun a w' h => ⟨1, ?_⟩) fun f w' h => ?_⟩
    · cases hnext.symm.trans h
      exact serve_popEvent_some (m := m) hpop
    · cases hnext.symm.trans h

/-- **A command**. -/
lemma does_execute (hq : EventQueueLaw K Q) (n : ℕ) (d input : String) (ts : List String)
    (c : Command) (w : World K G Q) : ∃ cs, Does m w cs (execute m n d input ts c w) := by
  cases c with
  | NOP => exact ⟨[], does_nil rfl⟩
  | QUIT => exact ⟨[], does_nil rfl⟩
  | HELP => exact ⟨[], does_nil rfl⟩
  | LIST_EVENT => exact ⟨[], does_nil rfl⟩
  | LIST_DEMAND_STREAM => exact ⟨[], does_nil rfl⟩
  | JSON_LIST => exact ⟨[], does_nil rfl⟩
  | LAST_VALUE => exact ⟨[], does_nil rfl⟩
  | RESET =>
    exact ⟨[.reset], does_call (fun a w' h => by
      cases h
      exact ⟨0, rfl⟩) fun e w' h => by cases h⟩
  | NEXT => exact does_pop hq w
  | GENERATE_NEXT_BR => exact does_generateNextBR ts w
  | GENERATE_ALL_BR => exact does_generateAllBR n ts w
  | GENERATE_FIRST_BR =>
    have hfirst : Does m w [.serve .generateFirstRequests]
        (DemandManager.generateFirstRequests m w) := by
      refine does_call (fun t w' h => ⟨0, serve_first h⟩) fun e w' h => ?_
      change (DemandManager.generateFirstRequests m >>= fun _ => pure 0) w = _
      exact bind_error h
    exact hfirst.bind fun _ _ _ => ⟨[], does_nil rfl⟩

lemma session_cons {n : ℕ} {d : String} {line : Line} {lines : List Line} {c : Command}
    {ts : List String} (h : extractCommand line.tokenList = (c, ts)) :
    (session m n d (line :: lines) : EStateM Fault (World K G Q) (List String))
      = execute m n d line.userInput ts c >>= fun reply =>
        if c = .QUIT then pure [reply, endOfSession]
        else session m n d lines >>= fun replies => pure (reply :: replies) := by
  rw [session, h]

/-- **A session** does what a sequence of service calls and resets does. -/
lemma does_session (hq : EventQueueLaw K Q) (n : ℕ) (d : String) (lines : List Line) :
    ∀ w : World K G Q, ∃ cs, Does m w cs (session m n d lines w) := by
  induction lines with
  | nil => exact fun w => ⟨[], does_nil rfl⟩
  | cons line lines ih =>
    intro w
    cases hextract : extractCommand line.tokenList with | _ c ts =>
    rw [session_cons hextract]
    obtain ⟨cs, hexecute⟩ := does_execute hq (m := m) n d line.userInput ts c w
    refine hexecute.bind fun reply w' _ => ?_
    split_ifs
    · exact ⟨[], does_nil rfl⟩
    · obtain ⟨cs', hrest⟩ := ih w'
      exact hrest.bind fun _ _ _ => ⟨[], does_nil rfl⟩

end Display

end Shell

/-! ### Streams that cannot fail -/

variable [IsStrictOrderedRing K]

/-- What a stream keeps however it is asked for requests or reset: no draw fails, and by the Poisson
method its pattern leads to the end of the walk. -/
structure DemandStream.Serviceable (m : DemandGenerationMethod) (s : DemandStream K G) : Prop where
  fit : Fit G s.demandCharacteristics
  leads : m = .POI_PRO → ∃ k, s.demandCharacteristics.arrivalPattern.Leads k
  nonneg : m = .POI_PRO → ∀ i < s.demandCharacteristics.arrivalPattern.size,
    0 ≤ s.demandCharacteristics.arrivalPattern.c i
  mean_pos : m = .POI_PRO → 0 < s.demandDistribution.meanNumberOfRequests

namespace DemandStream.Serviceable

variable {s s' : DemandStream K G}

lemma sameRow (h : Serviceable m s) (hrow : SameRow s s') : Serviceable m s' := by
  obtain ⟨hfit, hleads, hnonneg, hmean⟩ := h
  obtain ⟨-, hcharacteristics, hdistribution⟩ := hrow
  rw [← hcharacteristics] at hfit hleads hnonneg
  rw [← hdistribution] at hmean
  exact ⟨hfit, hleads, hnonneg, hmean⟩

/-- The time of a request is drawn. -/
lemma time (he : ExponentialLaw K G) (h : Serviceable m s) (hr : Reachable s)
    (hstill : s.stillHavingRequestsToBeGenerated m = true) :
    ∃ t s', generateTimeOfRequest m s = .ok t s' := by
  cases m with
  | STA_ORD =>
    have hpos : 0 < s.remaining :=
      sub_pos.mpr ((stillHavingRequestsToBeGenerated_STA_ORD s).mp hstill)
    obtain ⟨d, hd⟩ :=
      s.demandCharacteristics.arrivalPattern.exists_getValue h.fit.pattern s.nextProbability
    have htime := generateTimeOfRequestStatisticsOrder_eq s
    rw [if_pos hpos, hd] at htime
    exact ⟨_, _, htime⟩
  | POI_PRO =>
    obtain ⟨k, hleads⟩ := h.leads rfl
    obtain ⟨x, hx, -, -⟩ := (hr.onWay he hleads (h.nonneg rfl) (h.mean_pos rfl)).position
    obtain ⟨vs, t, s', hcall, -⟩ :=
      (hr.onWay he hleads (h.nonneg rfl) (h.mean_pos rfl)).exists_call he hx
    exact ⟨t, s', hcall.generateTimeOfRequest⟩

/-- **A request** is generated. -/
lemma next (he : ExponentialLaw K G) (h : Serviceable m s) (hr : Reachable s)
    (hstill : s.stillHavingRequestsToBeGenerated m = true) (g : G) :
    ∃ r s', generateNextRequest g m s = .ok (r, advance g 1) s' := by
  obtain ⟨t, s₁, ht⟩ := h.time he hr hstill
  obtain ⟨x⟩ := h.fit.draws s.demandCharacteristicsRandomGenerator
  obtain ⟨w, hw⟩ := exists_wtpAt h.fit.frat5 s.key.preferredDepartureDate t (variate g 0)
  exact ⟨_, _, generateNextRequest_eq_ok.mpr ⟨t, s₁, x, w, ht, hw, rfl, rfl, rfl⟩⟩

end DemandStream.Serviceable

/-- The streams of a world: none of them can fail. -/
structure World.Serviceable (m : DemandGenerationMethod) (w : World K G Q) : Prop where
  reachable : ∀ key ∈ w.demandStreamList, (w.demandStream key).Reachable
  stream : ∀ key ∈ w.demandStreamList, (w.demandStream key).Serviceable m

/-- The streams cannot fail, and they are still the same. -/
structure StillServiceable (m : DemandGenerationMethod) (w w' : World K G Q) : Prop where
  serviceable : w'.Serviceable m
  same : SameStreams w w'

variable {w w' w'' : World K G Q}

lemma StillServiceable.trans (h : StillServiceable m w w') (h' : StillServiceable m w' w'') :
    StillServiceable m w w'' :=
  ⟨h'.serviceable, h.same.trans h'.same⟩

namespace World.Serviceable

lemma refl (h : w.Serviceable m) : StillServiceable m w w := ⟨h, .refl w⟩

lemma same (h : w.Serviceable m) (hs : SameStreams w w')
    (hr : ∀ key ∈ w.demandStreamList, (w'.demandStream key).Reachable) :
    StillServiceable m w w' := by
  refine ⟨⟨fun key hkey => hr key (hs.list ▸ hkey), fun key hkey => ?_⟩, hs⟩
  exact (h.stream key (hs.list ▸ hkey)).sameRow (hs.row key)

/-- Nothing changed of the streams. -/
lemma queue (h : w.Serviceable m) (q : Q) (n : ℤ) :
    StillServiceable m w { w with queue := q, actualTotal := n } :=
  h.same ⟨rfl, fun _ => .refl _, rfl⟩ h.reachable

lemma updateStream (h : w.Serviceable m) {key : DemandStreamKey} {s : DemandStream K G}
    (hrow : SameRow (w.demandStream key) s) (hr : s.Reachable) :
    StillServiceable m w (DemandManager.updateStream key s w) := by
  refine h.same (sameStreams_updateStream hrow) fun key' hkey' => ?_
  by_cases heq : key' = key
  · rw [heq, updateStream_self]
    exact hr
  · rw [updateStream_of_ne heq]
    exact h.reachable key' hkey'

lemma generateNextRequest (he : ExponentialLaw K G) (h : w.Serviceable m) {key : DemandStreamKey}
    (hkey : key ∈ w.demandStreamList)
    (hstill : stillHavingRequestsToBeGenerated w key m = true) :
    ∃ r w', DemandManager.generateNextRequest key m w = .ok r w' ∧ StillServiceable m w w' := by
  have hreach := h.reachable key hkey
  obtain ⟨r, s, hr⟩ := (h.stream key hkey).next he hreach hstill w.generator
  have hcall : DemandManager.generateNextRequest key m w
      = .ok r (afterRequest key r (advance w.generator 1) s w) :=
    DemandManager.generateNextRequest_eq_ok.mpr ⟨_, s, hr, rfl⟩
  have hsame := sameStreams_next (m := m) key w
  rw [hcall, stateOf_ok] at hsame
  refine ⟨r, _, hcall, h.same hsame fun key' hkey' => ?_⟩
  rw [afterRequest_demandStream]
  by_cases heq : key' = key
  · subst heq
    rw [Function.update_self]
    exact .next hreach hstill hr
  · rw [Function.update_of_ne heq]
    exact h.reachable key' hkey'

lemma iterateStreams (he : ExponentialLaw K G) (ks : List DemandStreamKey) :
    ∀ {w : World K G Q} (t : ℤ), w.Serviceable m → ks ⊆ w.demandStreamList →
      ∃ t' w', DemandManager.iterateStreams m ks t w = .ok t' w' ∧ StillServiceable m w w' := by
  induction ks with
  | nil => exact fun {w} t h _ => ⟨t, w, rfl, h.refl⟩
  | cons key ks ih =>
    intro w t h hks
    obtain ⟨hkey, hks'⟩ := List.cons_subset.mp hks
    set w₁ := DemandManager.updateStream key
      ((w.demandStream key).setBoolFirstDateTimeRequest true) w with hw₁
    have h₁ : StillServiceable m w w₁ :=
      h.updateStream ⟨rfl, rfl, rfl⟩ (.first (h.reachable key hkey))
    cases hstill : stillHavingRequestsToBeGenerated w₁ key m with
    | false =>
      obtain ⟨t', w', hrun, h'⟩ := ih (w := w₁) _ h₁.serviceable hks'
      exact ⟨t', w', (iterateStreams_skip hw₁ hstill).trans hrun, h₁.trans h'⟩
    | true =>
      have hkey₁ : key ∈ w₁.demandStreamList := hkey
      obtain ⟨r, w₂, hr, h₂⟩ := h₁.serviceable.generateNextRequest he hkey₁ hstill
      obtain ⟨t', w', hrun, h'⟩ :=
        ih (w := w₂) _ h₂.serviceable ((h₁.trans h₂).same.list ▸ hks')
      exact ⟨t', w', (iterateStreams_next hw₁ hstill hr).trans hrun, (h₁.trans h₂).trans h'⟩

lemma generateFirstRequests (he : ExponentialLaw K G) (h : w.Serviceable m) :
    ∃ t w', DemandManager.generateFirstRequests m w = .ok t w' ∧ StillServiceable m w w' := by
  obtain ⟨t, w₁, hrun, h₁⟩ := iterateStreams he w.demandStreamList 0 h (List.Subset.refl _)
  exact ⟨t, _, generateFirstRequests_ok hrun, h₁.trans (h₁.serviceable.queue w₁.queue t)⟩

lemma reset (h : w.Serviceable m) : StillServiceable m w (DemandManager.reset w) :=
  h.same (sameStreams_reset w) fun _ hkey => .started (started_reset hkey)

lemma runCall (he : ExponentialLaw K G) (h : w.Serviceable m) (c : ShellCall) :
    ∃ n w', Shell.runCall m c w = .ok n w' ∧ StillServiceable m w w' := by
  cases c with
  | reset => exact ⟨0, _, rfl, h.reset⟩
  | serve c =>
    cases c with
    | popEvent =>
      cases hpop : EventQueue.popEvent w.queue with
      | none => exact ⟨0, w, serve_popEvent_none (m := m) hpop, h.refl⟩
      | some p => exact ⟨1, _, serve_popEvent_some (m := m) hpop, h.queue p.2 w.actualTotal⟩
    | generateNextRequest key =>
      by_cases hcall : key ∈ w.demandStreamList ∧
          stillHavingRequestsToBeGenerated w key m = true
      · obtain ⟨r, w', hr, h'⟩ := h.generateNextRequest he hcall.1 hcall.2
        exact ⟨0, w', serve_next hcall.1 hcall.2 hr, h'⟩
      · exact ⟨0, w, serve_next_skip hcall, h.refl⟩
    | generateFirstRequests =>
      obtain ⟨t, w', hrun, h'⟩ := h.generateFirstRequests he
      exact ⟨0, w', serve_first hrun, h'⟩

/-- **No call** of a session fails. -/
lemma runCalls (he : ExponentialLaw K G) (cs : List ShellCall) :
    ∀ {w : World K G Q}, w.Serviceable m →
      ∃ n w', Shell.runCalls m cs w = .ok n w' ∧ StillServiceable m w w' := by
  induction cs with
  | nil => exact fun {w} h => ⟨0, w, rfl, h.refl⟩
  | cons c cs ih =>
    intro w h
    obtain ⟨n, w₁, hc, h₁⟩ := h.runCall he c
    obtain ⟨k, w', hcs, h'⟩ := ih h₁.serviceable
    refine ⟨n + k, w', ?_, h₁.trans h'⟩
    rw [Shell.runCalls, bind_ok hc, bind_ok hcs]
    rfl

end World.Serviceable

/-! ### Sessions -/

section Session

variable [DateFormat] [EventDisplay K Q]

/-- However a session ends, and whatever ran out, its calls were served. -/
lemma World.Serviceable.session (hq : EventQueueLaw K Q) (he : ExponentialLaw K G)
    (h : w.Serviceable m) (n : ℕ) (d : String) (lines : List Line) :
    ∃ cs k w', Shell.runCalls m cs w = .ok k w' ∧ StillServiceable m w w' ∧
      ((∃ replies, Shell.session m n d lines w = .ok replies w') ∨
        Shell.session m n d lines w = .error .cut w') := by
  obtain ⟨cs, hdoes⟩ := does_session hq (m := m) n d lines w
  obtain ⟨k, w', hcalls, h'⟩ := h.runCalls he cs
  refine ⟨cs, k, w', hcalls, h', ?_⟩
  cases hs : Shell.session m n d lines w with
  | ok replies w'' =>
    rw [hs] at hdoes
    cases hdoes with
    | ok hcalls' =>
      cases hcalls.symm.trans hcalls'
      exact .inl ⟨replies, rfl⟩
  | error e w'' =>
    rw [hs] at hdoes
    cases hdoes with
    | cut hcalls' =>
      cases hcalls.symm.trans hcalls'
      exact .inr rfl
    | error hcalls' => cases hcalls.symm.trans hcalls'

/-- A stream that no draw fails for has a list of requests to generate. -/
def Exhaustible (G : Type) [RandomGeneration K G] (m : DemandGenerationMethod) : Prop :=
  ∀ s : DemandStream K G, s.Serviceable m → s.Reachable → ∃ rs, Emits m s rs

/-- With order statistics a stream has a list of requests to generate, however many it has
generated. -/
lemma DemandStream.Serviceable.emits_statisticsOrder (he : ExponentialLaw K G)
    {s : DemandStream K G} (h : s.Serviceable .STA_ORD) (hr : s.Reachable) :
    ∃ rs, Emits .STA_ORD s rs := by
  induction hn : s.remaining.toNat generalizing s with
  | zero =>
    refine ⟨[], .stop ?_⟩
    rw [← Bool.not_eq_true, stillHaving_iff_remaining]
    omega
  | succ n ih =>
    have hstill : s.stillHavingRequestsToBeGenerated .STA_ORD = true :=
      (stillHaving_iff_remaining s).mpr (by omega)
    obtain ⟨r, s', hnext⟩ := h.next he hr hstill s.requestDateTimeRandomGenerator
    have hbase := sameBase_next s.requestDateTimeRandomGenerator .STA_ORD s
    rw [hnext, stateOf_ok] at hbase
    obtain ⟨s₁, g₁, ht, rfl⟩ := generateNextRequest_time hnext
    obtain ⟨-, -, -, -, hremaining⟩ := generateTimeOfRequestStatisticsOrder_ok ht
    obtain ⟨rs, hrs⟩ := ih (h.sameRow (.of_sameBase hbase)) (.next hr hstill hnext)
      (by change s₁.remaining.toNat = n; omega)
    exact ⟨_, .next hstill ⟨_, _, hnext⟩ hrs⟩

lemma Exhaustible.statisticsOrder (he : ExponentialLaw K G) : Exhaustible G .STA_ORD := fun _ h hr =>
  h.emits_statisticsOrder he hr

/-- All the requests of its list are generated. -/
lemma World.Serviceable.generateAll (he : ExponentialLaw K G) {key : DemandStreamKey}
    (rs : List (BookingRequestStruct K)) :
    ∀ {w : World K G Q} (k : ℕ), w.Serviceable m → key ∈ w.demandStreamList →
      Emits m (w.demandStream key) rs → ∃ w', StillServiceable m w w' ∧
        ∀ n > rs.length, Shell.generateAll m key n k w = .ok (k + rs.length) w' := by
  induction rs with
  | nil =>
    intro w k h hkey hrs
    refine ⟨w, h.refl, fun n hn => ?_⟩
    obtain ⟨n, rfl⟩ : ∃ i, n = i + 1 := ⟨n - 1, by omega⟩
    have hstill : stillHavingRequestsToBeGenerated w key m = false := by
      rw [← Bool.not_eq_true]
      exact fun hstill => hrs.stillHaving.mp hstill rfl
    simp only [Shell.generateAll, get_bind, hstill, Bool.false_eq_true, if_false]
    rfl
  | cons x rs ih =>
    intro w k h hkey hrs
    have hstill : stillHavingRequestsToBeGenerated w key m = true :=
      hrs.stillHaving.mpr (List.cons_ne_nil _ _)
    obtain ⟨r, s, hcall, -, hrest⟩ := hrs.call w.generator
    have hr : DemandManager.generateNextRequest key m w
        = .ok r (afterRequest key r (advance w.generator 1) s w) :=
      DemandManager.generateNextRequest_eq_ok.mpr ⟨_, s, hcall, rfl⟩
    obtain ⟨r', w₁, hr', h₁⟩ := h.generateNextRequest he hkey hstill
    cases hr.symm.trans hr'
    obtain ⟨w', h', hall⟩ := ih (k + 1) h₁.serviceable (h₁.same.list ▸ hkey)
      (by rwa [afterRequest_demandStream, Function.update_self])
    refine ⟨w', h₁.trans h', fun n hn => ?_⟩
    obtain ⟨n, rfl⟩ : ∃ i, n = i + 1 := ⟨n - 1, by omega⟩
    rw [List.length_cons] at hn
    simp only [Shell.generateAll, get_bind, hstill, if_true]
    rw [bind_ok hr, hall n (by omega), List.length_cons, Nat.add_right_comm, Nat.add_assoc]

lemma World.Serviceable.generateNextBR (he : ExponentialLaw K G) (h : w.Serviceable m)
    (ts : List String) :
    ∃ reply w', StillServiceable m w w' ∧ Shell.generateNextBR m ts w = .ok reply w' := by
  cases hget : getEventGenerator w (Shell.toString ts) with
  | none => exact ⟨_, w, h.refl, generateNextBR_wrong hget⟩
  | some key =>
    cases hstill : stillHavingRequestsToBeGenerated w key m with
    | false => exact ⟨_, w, h.refl, generateNextBR_done hget hstill⟩
    | true =>
      obtain ⟨r, w', hr, h'⟩ :=
        h.generateNextRequest he (mem_of_getEventGenerator hget).1 hstill
      refine ⟨oneMoreEventGenerated (Shell.toString ts), w', h', ?_⟩
      rw [generateNextBR_next hget hstill, bind_ok hr]
      rfl

lemma World.Serviceable.generateAllBR (he : ExponentialLaw K G) (hends : Exhaustible G m)
    (h : w.Serviceable m) (ts : List String) :
    ∃ j reply w', StillServiceable m w w' ∧
      ∀ n ≥ j, Shell.generateAllBR m n ts w = .ok reply w' := by
  cases hget : getEventGenerator w (Shell.toString ts) with
  | none => exact ⟨0, _, w, h.refl, fun n _ => generateAllBR_wrong hget⟩
  | some key =>
    cases hstill : stillHavingRequestsToBeGenerated w key m with
    | false => exact ⟨0, _, w, h.refl, fun n _ => generateAllBR_done hget hstill⟩
    | true =>
      have hkey := (mem_of_getEventGenerator hget).1
      obtain ⟨rs, hrs⟩ := hends _ (h.stream key hkey) (h.reachable key hkey)
      obtain ⟨w', h', hall⟩ := World.Serviceable.generateAll he rs 0 h hkey hrs
      refine ⟨rs.length + 1, moreEventsGenerated (0 + rs.length) (Shell.toString ts), w', h',
        fun n hn => ?_⟩
      rw [generateAllBR_all hget hstill, bind_ok (hall n hn)]
      rfl

lemma World.Serviceable.pop (hq : EventQueueLaw K Q) (h : w.Serviceable m) :
    ∃ reply w', StillServiceable m w w' ∧
      (next : EStateM Fault (World K G Q) String) w = .ok reply w' := by
  cases hdone : isQueueDone w.queue with
  | true => exact ⟨_, w, h.refl, next_done hdone⟩
  | false =>
    obtain ⟨e, q, hpop⟩ := exists_popEvent_of_not_done hq hdone
    exact ⟨_, _, h.queue q w.actualTotal, next_popped hdone hpop⟩

/-- **A command** ends, in enough turns, if the requests of the streams do. -/
lemma World.Serviceable.execute (hq : EventQueueLaw K Q) (he : ExponentialLaw K G)
    (hends : Exhaustible G m) (h : w.Serviceable m) (d input : String) (ts : List String)
    (c : Command) :
    ∃ j reply w', StillServiceable m w w' ∧
      ∀ n ≥ j, Shell.execute m n d input ts c w = .ok reply w' := by
  cases c with
  | NOP => exact ⟨0, _, w, h.refl, fun _ _ => rfl⟩
  | QUIT => exact ⟨0, _, w, h.refl, fun _ _ => rfl⟩
  | HELP => exact ⟨0, _, w, h.refl, fun _ _ => rfl⟩
  | LIST_EVENT => exact ⟨0, _, w, h.refl, fun _ _ => rfl⟩
  | LIST_DEMAND_STREAM => exact ⟨0, _, w, h.refl, fun _ _ => rfl⟩
  | JSON_LIST => exact ⟨0, _, w, h.refl, fun _ _ => rfl⟩
  | LAST_VALUE => exact ⟨0, _, w, h.refl, fun _ _ => rfl⟩
  | RESET => exact ⟨0, _, _, h.reset, fun _ _ => rfl⟩
  | NEXT =>
    obtain ⟨reply, w', h', hnext⟩ := h.pop hq
    exact ⟨0, reply, w', h', fun _ _ => hnext⟩
  | GENERATE_NEXT_BR =>
    obtain ⟨reply, w', h', hnext⟩ := h.generateNextBR he ts
    exact ⟨0, reply, w', h', fun _ _ => hnext⟩
  | GENERATE_ALL_BR => exact h.generateAllBR he hends ts
  | GENERATE_FIRST_BR =>
    obtain ⟨t, w', hfirst, h'⟩ := h.generateFirstRequests he
    refine ⟨0, "Generate first requests\n", w', h', fun n _ => ?_⟩
    simp only [Shell.execute]
    rw [bind_ok hfirst]
    rfl

/-- **A session** ends, in enough turns, if the requests of the streams do. -/
lemma World.Serviceable.session_ok (hq : EventQueueLaw K Q) (he : ExponentialLaw K G)
    (hends : Exhaustible G m) (d : String) (lines : List Line) :
    ∀ {w : World K G Q}, w.Serviceable m → ∃ j replies w', StillServiceable m w w' ∧
      ∀ n ≥ j, Shell.session m n d lines w = .ok replies w' := by
  induction lines with
  | nil => exact fun {w} h => ⟨0, _, w, h.refl, fun _ _ => rfl⟩
  | cons line lines ih =>
    intro w h
    cases hextract : extractCommand line.tokenList with | _ c ts =>
    obtain ⟨j, reply, w₁, h₁, hexecute⟩ := h.execute hq he hends d line.userInput ts c
    obtain ⟨j', replies, w', h', hrest⟩ := ih h₁.serviceable
    by_cases hquit : c = .QUIT
    · refine ⟨j, [reply, endOfSession], w₁, h₁, fun n hn => ?_⟩
      rw [session_cons hextract, bind_ok (hexecute n hn), if_pos hquit]
      rfl
    · refine ⟨max j j', reply :: replies, w', h₁.trans h', fun n hn => ?_⟩
      rw [session_cons hextract, bind_ok (hexecute n ((le_max_left ..).trans hn)), if_neg hquit,
        bind_ok (hrest n ((le_max_right ..).trans hn))]
      rfl

/-- **A session of the shell**, by either method and whatever is typed, on streams that cannot fail:
it ends, or a `generate_all_br` of it never does. What it does to the world is what a sequence of
service calls and resets does, and the streams that it leaves are the same ones and cannot fail
either. With order statistics every session ends. -/
theorem session_serves (hq : EventQueueLaw K Q) (he : ExponentialLaw K G) {w : World K G Q}
    (h : w.Serviceable m) (d : String) (lines : List Line) :
    (∀ n, ∃ cs k w', Shell.runCalls m cs w = .ok k w' ∧ StillServiceable m w w' ∧
      ((∃ replies, Shell.session m n d lines w = .ok replies w') ∨
        Shell.session m n d lines w = .error .cut w')) ∧
      (m = .STA_ORD → ∃ j replies w', ∀ n ≥ j,
        Shell.session .STA_ORD n d lines w = .ok replies w') := by
  refine ⟨fun n => h.session hq he n d lines, ?_⟩
  rintro rfl
  obtain ⟨j, replies, w', -, hends⟩ := World.Serviceable.session_ok hq he (.statisticsOrder he) d
    lines h
  exact ⟨j, replies, w', hends⟩

/-! ### All the requests of a stream -/

section All

variable {key : DemandStreamKey} {ts : List String} {n : ℕ} {d : String}

lemma getEventGenerator_next {r : BookingRequestStruct K} {iKey : String}
    (h : DemandManager.generateNextRequest key m w = .ok r w') :
    getEventGenerator w' iKey = getEventGenerator w iKey := by
  unfold getEventGenerator
  rw [demandStreamList_next h]

/-- The two replies of `generate_next_br` are not the same. -/
lemma oneMoreEventGenerated_ne (k : String) :
    oneMoreEventGenerated k ≠ noMoreEventToGenerate k := by
  have hone : "One more event have been generated for the demand stream: '".length = 59 := by decide
  have hno : "No more events to generate for the demand stream: '".length = 51 := by decide
  intro h
  unfold oneMoreEventGenerated noMoreEventToGenerate at h
  have hlen := congrArg String.length h
  rw [String.length_append, String.length_append, String.length_append, String.length_append, hone,
    hno] at hlen
  omega

lemma session_eq_ok {line : Line} {c : Command} (hline : extractCommand line.tokenList = (c, ts))
    (hc : c ≠ .QUIT) {lines : List Line} {replies : List String} :
    Shell.session m n d (line :: lines) w = .ok replies w' ↔
      ∃ reply w₁ rest, Shell.execute m n d line.userInput ts c w = .ok reply w₁ ∧
        Shell.session m n d lines w₁ = .ok rest w' ∧ replies = reply :: rest := by
  rw [session_cons hline, bind_eq_ok]
  refine ⟨fun ⟨reply, w₁, hexecute, hrest⟩ => ?_,
    fun ⟨reply, w₁, rest, hexecute, hrest, hreplies⟩ => ⟨reply, w₁, hexecute, ?_⟩⟩
  · rw [if_neg hc] at hrest
    obtain ⟨rest, w₂, hsession, hpure⟩ := bind_eq_ok.mp hrest
    cases hpure
    exact ⟨reply, w₁, rest, hexecute, hsession, rfl⟩
  · rw [if_neg hc, hreplies]
    exact bind_eq_ok.mpr ⟨rest, w', hrest, rfl⟩

lemma generateNextBR_eq_ok (h : getEventGenerator w (Shell.toString ts) = some key)
    {reply : String} : Shell.generateNextBR m ts w = .ok reply w' ↔
      stillHavingRequestsToBeGenerated w key m = false ∧
        reply = noMoreEventToGenerate (Shell.toString ts) ∧ w' = w ∨
      stillHavingRequestsToBeGenerated w key m = true ∧
        reply = oneMoreEventGenerated (Shell.toString ts) ∧
        ∃ r, DemandManager.generateNextRequest key m w = .ok r w' := by
  cases hstill : stillHavingRequestsToBeGenerated w key m with
  | false =>
    rw [generateNextBR_done h hstill]
    simp [eq_comm]
  | true =>
    rw [generateNextBR_next h hstill, bind_eq_ok]
    refine ⟨fun ⟨r, w₁, hr, hpure⟩ => ?_, ?_⟩
    · cases hpure
      exact .inr ⟨rfl, rfl, r, hr⟩
    · rintro (⟨hnot, -, -⟩ | ⟨-, rfl, r, hr⟩)
      · cases hnot
      · exact ⟨r, w', hr, rfl⟩

/-- What the shell answers when so many lines asked for the next request, and the last one found
none. -/
def nextReplies (ts : List String) (N : ℕ) : List String :=
  List.replicate N (oneMoreEventGenerated (Shell.toString ts))
    ++ [noMoreEventToGenerate (Shell.toString ts), "\n" ++ endOfSession]

section Lines

variable {line : Line} (hline : extractCommand line.tokenList = (.GENERATE_NEXT_BR, ts))

include hline

/-- One line, and those after it. -/
lemma session_replicate {N : ℕ} : Shell.session m n d (List.replicate (N + 1) line) w
    = .ok (nextReplies ts N) w' ↔ ∃ reply w₁ rest, Shell.generateNextBR m ts w = .ok reply w₁ ∧
      Shell.session m n d (List.replicate N line) w₁ = .ok rest w' ∧
      nextReplies ts N = reply :: rest :=
  session_eq_ok hline (by decide)

/-- No line is answered with a request exactly when there is none left. -/
lemma stillHaving_of_lines {N : ℕ} (hget : getEventGenerator w (Shell.toString ts) = some key)
    (h : Shell.session m n d (List.replicate (N + 1) line) w = .ok (nextReplies ts N) w') :
    stillHavingRequestsToBeGenerated w key m = true ↔ N ≠ 0 := by
  obtain ⟨reply, w₁, rest, hnext, -, hreplies⟩ := (session_replicate hline).mp h
  rcases (generateNextBR_eq_ok hget).mp hnext with ⟨hstill, rfl, -⟩ | ⟨hstill, rfl, -⟩
  · cases N with
    | zero => simp [hstill]
    | succ N => exact absurd (List.cons.inj hreplies).1 (oneMoreEventGenerated_ne _)
  · cases N with
    | zero => exact absurd (List.cons.inj hreplies).1 (oneMoreEventGenerated_ne _).symm
    | succ N => simp [hstill]

/-- A line is refused. -/
lemma session_replicate_zero (hget : getEventGenerator w (Shell.toString ts) = some key)
    (hstill : stillHavingRequestsToBeGenerated w key m = false) :
    Shell.session m n d (List.replicate (0 + 1) line) w = .ok (nextReplies ts 0) w :=
  (session_replicate hline).mpr ⟨_, w, _, generateNextBR_done hget hstill, rfl, rfl⟩

/-- A line generates a request, and the lines after it go on from there. -/
lemma session_replicate_succ {N : ℕ} (hget : getEventGenerator w (Shell.toString ts) = some key)
    (hstill : stillHavingRequestsToBeGenerated w key m = true) :
    Shell.session m n d (List.replicate (N + 1 + 1) line) w = .ok (nextReplies ts (N + 1)) w' ↔
      ∃ r w₁, DemandManager.generateNextRequest key m w = .ok r w₁ ∧
        Shell.session m n d (List.replicate (N + 1) line) w₁ = .ok (nextReplies ts N) w' := by
  rw [session_replicate hline]
  refine ⟨fun ⟨reply, w₁, rest, hnext, hrest, hreplies⟩ => ?_, fun ⟨r, w₁, hr, hrest⟩ => ?_⟩
  · rcases (generateNextBR_eq_ok hget).mp hnext with ⟨hnot, -⟩ | ⟨-, rfl, r, hr⟩
    · rw [hstill] at hnot
      cases hnot
    · obtain ⟨-, rfl⟩ := List.cons.inj hreplies
      exact ⟨r, w₁, hr, hrest⟩
  · exact ⟨_, w₁, _, (generateNextBR_eq_ok hget).mpr (.inr ⟨hstill, rfl, r, hr⟩), hrest, rfl⟩

/-- **The loop** generates what as many lines do. -/
lemma generateAll_eq_ok {M : ℕ} (j : ℕ) :
    ∀ {w : World K G Q} (k : ℕ), getEventGenerator w (Shell.toString ts) = some key →
      (Shell.generateAll m key j k w = .ok M w' ↔ ∃ N < j, M = k + N ∧
        Shell.session m n d (List.replicate (N + 1) line) w = .ok (nextReplies ts N) w') := by
  induction j with
  | zero =>
    intro w k _
    refine ⟨fun h => ?_, fun ⟨N, hN, _⟩ => absurd hN (Nat.not_lt_zero N)⟩
    cases h
  | succ j ih =>
    intro w k hget
    cases hstill : stillHavingRequestsToBeGenerated w key m with
    | false =>
      have hdone : Shell.generateAll m key (j + 1) k w = .ok k w := by
        simp only [Shell.generateAll, get_bind, hstill, Bool.false_eq_true, if_false]
        rfl
      have hlines := session_replicate_zero (n := n) (d := d) hline hget hstill
      rw [hdone]
      refine ⟨fun h => ?_, fun ⟨N, hN, hM, hsession⟩ => ?_⟩
      · cases h
        exact ⟨0, Nat.succ_pos j, rfl, hlines⟩
      · obtain rfl : N = 0 := by
          by_contra hne
          have htrue := (stillHaving_of_lines hline hget hsession).mpr hne
          rw [hstill] at htrue
          cases htrue
        cases hlines.symm.trans hsession
        rw [hM]
        rfl
    | true =>
      have hloop : Shell.generateAll m key (j + 1) k w
          = (DemandManager.generateNextRequest key m >>= fun _ =>
            Shell.generateAll m key j (k + 1)) w := by
        simp only [Shell.generateAll, get_bind, hstill, if_true]
      rw [hloop, bind_eq_ok]
      refine ⟨fun ⟨r, w₁, hr, hrest⟩ => ?_, fun ⟨N, hN, hM, hsession⟩ => ?_⟩
      · have hget₁ := (getEventGenerator_next hr).trans hget
        obtain ⟨N, hN, hM, hsession⟩ := (ih (k + 1) hget₁).mp hrest
        exact ⟨N + 1, Nat.succ_lt_succ hN, by omega,
          (session_replicate_succ hline hget hstill).mpr ⟨r, w₁, hr, hsession⟩⟩
      · have hne := (stillHaving_of_lines hline hget hsession).mp hstill
        obtain ⟨N, rfl⟩ := Nat.exists_eq_succ_of_ne_zero hne
        obtain ⟨r, w₁, hr, hrest⟩ := (session_replicate_succ hline hget hstill).mp hsession
        have hget₁ := (getEventGenerator_next hr).trans hget
        exact ⟨r, w₁, hr, (ih (k + 1) hget₁).mpr ⟨N, by omega, by omega, hrest⟩⟩

end Lines

/-- What `generate_all_br` answers. -/
def allReplies (ts : List String) : ℕ → List String
  | 0 => [noMoreEventToGenerate (Shell.toString ts), "\n" ++ endOfSession]
  | N + 1 => [moreEventsGenerated (N + 1) (Shell.toString ts), "\n" ++ endOfSession]

/-- **`generate_all_br`**, by either method, does to the world what `generate_next_br` does when it
is typed until it is refused, and its reply tells how often it was not: it returns exactly when so
many lines do, if the turns are enough. -/
theorem generateAll_next {w w' : World K G Q} {key : DemandStreamKey} {ts : List String}
    (h : getEventGenerator w (Shell.toString ts) = some key) {allLine nextLine : Line}
    (hall : extractCommand allLine.tokenList = (.GENERATE_ALL_BR, ts))
    (hnext : extractCommand nextLine.tokenList = (.GENERATE_NEXT_BR, ts)) (n : ℕ) (d : String)
    (replies : List String) :
    Shell.session m n d [allLine] w = .ok replies w' ↔ ∃ N, (0 < N → N < n) ∧
      replies = allReplies ts N ∧
      Shell.session m n d (List.replicate (N + 1) nextLine) w = .ok (nextReplies ts N) w' := by
  rw [session_eq_ok hall (by decide)]
  cases hstill : stillHavingRequestsToBeGenerated w key m with
  | false =>
    have hlines := session_replicate_zero (n := n) (d := d) hnext h hstill
    refine ⟨fun ⟨reply, w₁, rest, hexecute, hrest, hreplies⟩ => ?_,
      fun ⟨N, hN, hreplies, hsession⟩ => ?_⟩
    · cases (generateAllBR_done (n := n) h hstill).symm.trans hexecute
      cases hrest
      exact ⟨0, fun h0 => absurd h0 (Nat.lt_irrefl 0), hreplies, hlines⟩
    · obtain rfl : N = 0 := by
        by_contra hne
        have htrue := (stillHaving_of_lines hnext h hsession).mpr hne
        rw [hstill] at htrue
        cases htrue
      cases hlines.symm.trans hsession
      exact ⟨_, w, _, generateAllBR_done h hstill, rfl, hreplies⟩
  | true =>
    refine ⟨fun ⟨reply, w₁, rest, hexecute, hrest, hreplies⟩ => ?_,
      fun ⟨N, hN, hreplies, hsession⟩ => ?_⟩
    · obtain ⟨M, w₂, hloop, hpure⟩ :=
        bind_eq_ok.mp ((generateAllBR_all h hstill).symm.trans hexecute)
      cases hpure
      cases hrest
      obtain ⟨N, hN, hM, hsession⟩ := (generateAll_eq_ok hnext n 0 h).mp hloop
      have hne := (stillHaving_of_lines hnext h hsession).mp hstill
      obtain ⟨N, rfl⟩ := Nat.exists_eq_succ_of_ne_zero hne
      refine ⟨N + 1, fun _ => hN, ?_, hsession⟩
      rw [hreplies, hM, Nat.zero_add]
      rfl
    · have hne := (stillHaving_of_lines hnext h hsession).mp hstill
      obtain ⟨N, rfl⟩ := Nat.exists_eq_succ_of_ne_zero hne
      have hloop := (generateAll_eq_ok (M := N + 1) hnext n 0 h).mpr
        ⟨N + 1, hN (Nat.succ_pos N), (Nat.zero_add _).symm, hsession⟩
      refine ⟨_, w', _, ?_, rfl, hreplies⟩
      exact (generateAllBR_all h hstill).trans (bind_eq_ok.mpr ⟨N + 1, w', hloop, rfl⟩)

end All

end Session

section Real

lemma lastMinute_serviceable (N : ℕ) : (lastMinute 36000 N).Serviceable .STA_ORD := by
  have hready := lastMinute_ready 36000 N
  refine ⟨fun key hkey => Reachable.started (hready.started key hkey), fun key hkey => ?_⟩
  have hsound := hready.sound key hkey
  exact ⟨⟨hsound.pattern, hsound.frat5, fun g => ⟨sampleDraws Tape.uniformLaw g⟩⟩, nofun, nofun,
    nofun⟩

/-- A line of one word, or of none. -/
def lineSample (word : String) : Line := ⟨word, if word = "" then [] else [word]⟩

theorem session_serves_sample :
    ∃ n replies w', Shell.session .STA_ORD n "" (["generate_first_br", "Reset", "", "cancel",
      "delete_first", "quit"].map lineSample) (lastMinute 36000 2) = .ok replies w' := by
  obtain ⟨-, hends⟩ := session_serves SortedQueue.law Tape.positiveExponentialLaw.nonneg
    (lastMinute_serviceable 2) "" (["generate_first_br", "Reset", "", "cancel",
      "delete_first", "quit"].map lineSample)
  obtain ⟨j, replies, w', hall⟩ := hends rfl
  exact ⟨j, replies, w', hall j le_rfl⟩

/-- The command, with the key of the sample stream behind it. -/
def keyLineSample (command : String) : Line :=
  ⟨command ++ " SIN-BKK 2010-Feb-09 Y", [command, "SIN-BKK", "2010-Feb-09", "Y"]⟩

theorem generateAll_next_sample :
    ∃ n N w', Shell.session .STA_ORD n "" [keyLineSample "generate_all_br"] (lastMinute 36000 2)
        = .ok (allReplies ["SIN-BKK", "2010-Feb-09", "Y"] N) w' ∧
      Shell.session .STA_ORD n "" (List.replicate (N + 1) (keyLineSample "generate_next_br"))
        (lastMinute 36000 2) = .ok (nextReplies ["SIN-BKK", "2010-Feb-09", "Y"] N) w' := by
  have hkey : getEventGenerator (lastMinute 36000 2)
      (Shell.toString ["SIN-BKK", "2010-Feb-09", "Y"]) = some sampleKey := by
    have hstring : sampleKey.toString = Shell.toString ["SIN-BKK", "2010-Feb-09", "Y"] := by decide
    exact List.find?_cons_of_pos (decide_eq_true hstring)
  obtain ⟨j, replies, w', -, hall⟩ := World.Serviceable.session_ok SortedQueue.law
    Tape.positiveExponentialLaw.nonneg (.statisticsOrder Tape.positiveExponentialLaw.nonneg) ""
    [keyLineSample "generate_all_br"] (lastMinute_serviceable 2)
  have hallLine : extractCommand (keyLineSample "generate_all_br").tokenList
      = (.GENERATE_ALL_BR, ["SIN-BKK", "2010-Feb-09", "Y"]) := by decide
  have hnextLine : extractCommand (keyLineSample "generate_next_br").tokenList
      = (.GENERATE_NEXT_BR, ["SIN-BKK", "2010-Feb-09", "Y"]) := by decide
  obtain ⟨N, -, rfl, hnext⟩ :=
    (generateAll_next hkey hallLine hnextLine j "" replies).mp (hall j le_rfl)
  exact ⟨j, N, w', hall j le_rfl, hnext⟩

end Real

end Trademgen
