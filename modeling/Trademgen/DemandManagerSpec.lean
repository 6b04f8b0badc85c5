import Trademgen.DemandManager
import Trademgen.StatisticsOrder

/-!
What the calls of the demand manager do to the world.

With order statistics a world is known from the streams it started with and from the number of
requests that each of them has generated since.
-/

set_option linter.unusedSectionVars false

namespace Trademgen

open Faulting EventQueue

namespace DemandManager

variable {K G Q : Type} [Field K] [LinearOrder K] [FloorRing K] [Libm K] [RandomGeneration K G]
  [EventQueue K Q]

/-! ### One request -/

lemma updateStream_self (key : DemandStreamKey) (s : DemandStream K G) (w : World K G Q) :
    (updateStream key s w).demandStream key = s := Function.update_self ..

lemma updateStream_of_ne {key key' : DemandStreamKey} (h : key' ≠ key) (s : DemandStream K G)
    (w : World K G Q) : (updateStream key s w).demandStream key' = w.demandStream key' :=
  Function.update_of_ne h ..

lemma updateStream_eq_self (key : DemandStreamKey) (w : World K G Q) :
    updateStream key (w.demandStream key) w = w := by
  unfold updateStream
  rw [Function.update_eq_self]

lemma dispatch_demandStreamList (r : BookingRequestStruct K) (w : World K G Q) :
    (dispatch r w).demandStreamList = w.demandStreamList := by
  unfold dispatch
  split_ifs <;> rfl

lemma dispatch_demandStream (r : BookingRequestStruct K) (w : World K G Q) :
    (dispatch r w).demandStream = w.demandStream := by
  unfold dispatch
  split_ifs <;> rfl

lemma dispatch_history (r : BookingRequestStruct K) (w : World K G Q) :
    (dispatch r w).history = w.history := by
  unfold dispatch
  split_ifs <;> rfl

/-- The world after a request of a stream. -/
def afterRequest (iKey : DemandStreamKey) (r : BookingRequestStruct K) (g : G)
    (s : DemandStream K G) (w : World K G Q) : World K G Q :=
  dispatch r { updateStream iKey s w with generator := g, history := w.history ++ [r] }

lemma generateNextRequest_eq (iKey : DemandStreamKey) (m : DemandGenerationMethod)
    (w : World K G Q) :
    generateNextRequest iKey m w =
      match (w.demandStream iKey).generateNextRequest w.generator m with
      | .ok (r, g) s => .ok r (afterRequest iKey r g s w)
      | .error e s => .error e (updateStream iKey s w) := by
  have hdraw : generateNextRequest iKey m w = (drawRequest iKey m >>= fun r => do
      modify (dispatch r)
      return r) w := rfl
  rw [hdraw]
  cases h : (w.demandStream iKey).generateNextRequest w.generator m with
  | error e s =>
    rw [bind_error (show drawRequest iKey m w = .error e (updateStream iKey s w) by
      unfold drawRequest; rw [h])]
  | ok p s =>
    obtain ⟨r, g⟩ := p
    rw [bind_ok (show drawRequest iKey m w = .ok r { updateStream iKey s w with
      generator := g, history := w.history ++ [r] } by unfold drawRequest; rw [h])]
    rfl

lemma generateNextRequest_eq_ok {iKey : DemandStreamKey} {m : DemandGenerationMethod}
    {w w' : World K G Q} {r : BookingRequestStruct K} :
    generateNextRequest iKey m w = .ok r w' ↔
      ∃ g s, (w.demandStream iKey).generateNextRequest w.generator m = .ok (r, g) s ∧
        w' = afterRequest iKey r g s w := by
  rw [generateNextRequest_eq]
  refine ⟨fun h => ?_, ?_⟩
  · cases hgen : (w.demandStream iKey).generateNextRequest w.generator m with
    | error e s =>
      rw [hgen] at h
      cases h
    | ok p s =>
      rw [hgen] at h
      cases h
      exact ⟨p.2, s, rfl, rfl⟩
  · rintro ⟨g, s, hgen, rfl⟩
    rw [hgen]

/-- A call that throws leaves only the stream changed. -/
lemma generateNextRequest_error {iKey : DemandStreamKey} {m : DemandGenerationMethod}
    {w w' : World K G Q} {e : Fault} (h : generateNextRequest iKey m w = .error e w') :
    ∃ s, w' = updateStream iKey s w := by
  rw [generateNextRequest_eq] at h
  cases hgen : (w.demandStream iKey).generateNextRequest w.generator m with
  | error e' s =>
    rw [hgen] at h
    cases h
    exact ⟨s, rfl⟩
  | ok p s =>
    rw [hgen] at h
    cases h

variable {iKey : DemandStreamKey} {r : BookingRequestStruct K} {g : G} {s : DemandStream K G}
  {w : World K G Q}

lemma afterRequest_demandStreamList :
    (afterRequest iKey r g s w).demandStreamList = w.demandStreamList :=
  dispatch_demandStreamList _ _

lemma afterRequest_demandStream :
    (afterRequest iKey r g s w).demandStream = Function.update w.demandStream iKey s :=
  dispatch_demandStream _ _

lemma afterRequest_history : (afterRequest iKey r g s w).history = w.history ++ [r] :=
  dispatch_history _ _

/-- A request before its departure goes into the queue, and the total stays. -/
lemma afterRequest_before (hq : EventQueueLaw K Q) (h : isBeforeDeparture r = true) :
    (∃ t, contents (afterRequest iKey r g s w).queue = ⟨t, r⟩ ::ₘ contents w.queue) ∧
      (afterRequest iKey r g s w).actualTotal = w.actualTotal := by
  unfold afterRequest dispatch
  rw [if_pos h]
  exact ⟨hq.addEvent _ _, rfl⟩

/-- Any other is taken off the total, and the queue stays. -/
lemma afterRequest_late (h : isBeforeDeparture r = false) :
    (afterRequest iKey r g s w).queue = w.queue ∧
      (afterRequest iKey r g s w).actualTotal = w.actualTotal - 1 := by
  unfold afterRequest dispatch
  rw [h]
  exact ⟨rfl, rfl⟩

/-! ### Order statistics -/

lemma isBeforeDeparture_iff {k : ℕ} (h : s.IsRequest k r) :
    isBeforeDeparture r = true ↔ s.Punctual k := by
  obtain ⟨d, hd, ht⟩ := h.time
  obtain ⟨p, hp, hr⟩ := h.preferred
  have hiff : isBeforeDeparture r = true ↔
      r.requestDateTime.date < s.key.preferredDepartureDate ∨
        r.requestDateTime.date = s.key.preferredDepartureDate ∧
          r.requestDateTime.timeOfDay < DateTime.seconds p := by
    simp only [isBeforeDeparture, h.departure, hr, Bool.or_eq_true, Bool.and_eq_true,
      decide_eq_true_eq]
    rw [eq_comm (a := r.requestDateTime.date)]
  rw [hiff, ht]
  refine ⟨fun h0 => ?_, ?_⟩
  · exact ⟨d, p, hd, hp, h0⟩
  · rintro ⟨d', p', hd', hp', h0⟩
    rw [hd] at hd'
    rw [hp] at hp'
    cases hd'
    cases hp'
    exact h0

/-- The streams of the world are those it started with, after as many requests each. -/
structure Tracks (L : List DemandStreamKey) (S : DemandStreamKey → DemandStream K G)
    (n : DemandStreamKey → ℕ) (w : World K G Q) : Prop where
  list : w.demandStreamList = L
  stream : ∀ key ∈ L, w.demandStream key = (S key).after (n key)

/-- The streams of a start: they were started under their keys, with no negative number of
requests, and no draw fails. -/
structure Ready (L : List DemandStreamKey) (S : DemandStreamKey → DemandStream K G) : Prop where
  nodup : L.Nodup
  key : ∀ key ∈ L, (S key).key = key
  started : ∀ key ∈ L, (S key).Started
  nonneg : ∀ key ∈ L, 0 ≤ (S key).totalNumberOfRequestsToBeGenerated
  sound : ∀ key ∈ L, (S key).Sound

variable {L : List DemandStreamKey} {S : DemandStreamKey → DemandStream K G}
  {n : DemandStreamKey → ℕ}

lemma Tracks.stillHaving (h : Tracks L S n w) {key : DemandStreamKey} (hkey : key ∈ L) :
    stillHavingRequestsToBeGenerated w key .STA_ORD = true ↔
      (n key : ℤ) < (S key).totalNumberOfRequestsToBeGenerated := by
  unfold stillHavingRequestsToBeGenerated
  rw [h.stream key hkey, DemandStream.stillHaving_after]

/-- What a call leaves: the request, in the queue or taken off the total. -/
inductive Dispatched (s : DemandStream K G) (k : ℕ) (r : BookingRequestStruct K)
    (w w' : World K G Q) : Prop
  | queued (h : s.Punctual k) (t : DateTime)
      (queue : contents w'.queue = ⟨t, r⟩ ::ₘ contents w.queue)
      (total : w'.actualTotal = w.actualTotal)
  | dropped (h : ¬ s.Punctual k) (queue : w'.queue = w.queue)
      (total : w'.actualTotal = w.actualTotal - 1)

/-- **A call** on a stream that has requests left generates the next one, and dispatches it. -/
theorem Tracks.next (hq : EventQueueLaw K Q) (hS : Ready L S) (h : Tracks L S n w)
    {key : DemandStreamKey} (hkey : key ∈ L)
    (hn : (n key : ℤ) < (S key).totalNumberOfRequestsToBeGenerated) :
    ∃ r w', generateNextRequest key .STA_ORD w = .ok r w' ∧ (S key).IsRequest (n key) r ∧
      Tracks L S (Function.update n key (n key + 1)) w' ∧
      Dispatched (S key) (n key) r w w' := by
  obtain ⟨r, hr, hreq⟩ := (hS.sound key hkey).generateNextRequest hn w.generator
  rw [← h.stream key hkey] at hr
  refine ⟨r, _, generateNextRequest_eq_ok.mpr ⟨_, _, hr, rfl⟩, hreq, ⟨?_, fun key' hkey' => ?_⟩, ?_⟩
  · rw [afterRequest_demandStreamList, h.list]
  · rw [afterRequest_demandStream]
    by_cases heq : key' = key
    · subst heq
      rw [Function.update_self, Function.update_self]
    · rw [Function.update_of_ne heq, Function.update_of_ne heq]
      exact h.stream key' hkey'
  · by_cases hb : isBeforeDeparture r = true
    · obtain ⟨⟨t, ht⟩, htotal⟩ := afterRequest_before (w := w) hq hb
      exact .queued ((isBeforeDeparture_iff hreq).mp hb) t ht htotal
    · obtain ⟨hqueue, htotal⟩ := afterRequest_late (w := w) (Bool.not_eq_true _ ▸ hb)
      exact .dropped (fun hp => hb ((isBeforeDeparture_iff hreq).mpr hp)) hqueue htotal

/-! ### The first requests -/

lemma iterateStreams_skip {key : DemandStreamKey} {ks : List DemandStreamKey} {t : ℤ}
    {m : DemandGenerationMethod} {w₁ : World K G Q}
    (hw₁ : w₁ = updateStream key ((w.demandStream key).setBoolFirstDateTimeRequest true) w)
    (h : stillHavingRequestsToBeGenerated w₁ key m = false) :
    iterateStreams m (key :: ks) t w = iterateStreams m ks
      (t + (w₁.demandStream key).totalNumberOfRequestsToBeGenerated) w₁ := by
  subst hw₁
  rw [iterateStreams, modify_bind, get_bind, h]
  rfl

lemma iterateStreams_next {key : DemandStreamKey} {ks : List DemandStreamKey} {t : ℤ}
    {m : DemandGenerationMethod} {w₁ w₂ : World K G Q}
    (hw₁ : w₁ = updateStream key ((w.demandStream key).setBoolFirstDateTimeRequest true) w)
    (h : stillHavingRequestsToBeGenerated w₁ key m = true)
    (hr : generateNextRequest key m w₁ = .ok r w₂) :
    iterateStreams m (key :: ks) t w = iterateStreams m ks
      (t + (w₁.demandStream key).totalNumberOfRequestsToBeGenerated) w₂ := by
  subst hw₁
  rw [iterateStreams, modify_bind, get_bind, h, if_pos rfl, bind_ok hr]

lemma iterateStreams_throw {key : DemandStreamKey} {ks : List DemandStreamKey} {t : ℤ}
    {m : DemandGenerationMethod} {w₁ w₂ : World K G Q} {e : Fault}
    (hw₁ : w₁ = updateStream key ((w.demandStream key).setBoolFirstDateTimeRequest true) w)
    (h : stillHavingRequestsToBeGenerated w₁ key m = true)
    (hr : generateNextRequest key m w₁ = .error e w₂) :
    iterateStreams m (key :: ks) t w = .error e w₂ := by
  subst hw₁
  rw [iterateStreams, modify_bind, get_bind, h, if_pos rfl, bind_error hr]

/-- On a stream that has just started, the first-request flag is set already. -/
lemma Tracks.setBoolFirst (hS : Ready L S) (h : Tracks L S n w) {key : DemandStreamKey}
    (hkey : key ∈ L) (hn : n key = 0) :
    updateStream key ((w.demandStream key).setBoolFirstDateTimeRequest true) w = w := by
  have hfresh := (hS.started key hkey).fresh
  have hs : (w.demandStream key).setBoolFirstDateTimeRequest true = w.demandStream key := by
    rw [h.stream key hkey, hn, hfresh.after_zero]
    unfold DemandStream.setBoolFirstDateTimeRequest
    rw [← hfresh.first]
  rw [hs, updateStream_eq_self]

/-- The number of requests a stream has generated once the first requests are. -/
def firstCount (s : DemandStream K G) : ℕ :=
  if 0 < s.totalNumberOfRequestsToBeGenerated then 1 else 0

/-- One stream of the loop generates one request, if it has any. -/
lemma Tracks.iterateStream (hq : EventQueueLaw K Q) (hS : Ready L S)
    {P : (DemandStreamKey → ℕ) → World K G Q → Prop}
    (hP : ∀ n w key r w', P n w → key ∈ L → n key = 0 →
      0 < (S key).totalNumberOfRequestsToBeGenerated → (S key).IsRequest 0 r →
      Dispatched (S key) 0 r w w' → P (Function.update n key 1) w')
    (h : Tracks L S n w) (hp : P n w) {key : DemandStreamKey} (hkey : key ∈ L)
    (hn : n key = 0) :
    ∃ n' w', n' = Function.update n key (firstCount (S key)) ∧ Tracks L S n' w' ∧ P n' w' ∧
      ∀ ks t, iterateStreams .STA_ORD (key :: ks) t w
        = iterateStreams .STA_ORD ks (t + (S key).totalNumberOfRequestsToBeGenerated) w' := by
  have hflag := h.setBoolFirst hS hkey hn
  have htotal : (w.demandStream key).totalNumberOfRequestsToBeGenerated
      = (S key).totalNumberOfRequestsToBeGenerated := by
    rw [h.stream key hkey]
    rfl
  by_cases hpos : 0 < (S key).totalNumberOfRequestsToBeGenerated
  · have hlt : (n key : ℤ) < (S key).totalNumberOfRequestsToBeGenerated := by
      rw [hn]
      exact hpos
    obtain ⟨r, w', hr, hreq, htr, hdis⟩ := h.next hq hS hkey hlt
    rw [hn] at hreq htr hdis
    refine ⟨_, w', ?_, htr, hP n w key r w' hp hkey hn hpos hreq hdis, fun ks t => ?_⟩
    · rw [firstCount, if_pos hpos]
    · rw [iterateStreams_next hflag.symm ((h.stillHaving hkey).mpr hlt) hr, htotal]
  · have hstill : stillHavingRequestsToBeGenerated w key .STA_ORD = false := by
      rw [← Bool.not_eq_true, h.stillHaving hkey, hn]
      exact hpos
    refine ⟨n, w, ?_, h, hp, fun ks t => ?_⟩
    · rw [firstCount, if_neg hpos, ← hn, Function.update_eq_self]
    · rw [iterateStreams_skip hflag.symm hstill, htotal]

/-- **The first requests**: every stream generates one request, if it has any. What every such
request preserves holds in the end. -/
theorem Tracks.iterateStreams (hq : EventQueueLaw K Q) (hS : Ready L S)
    {P : (DemandStreamKey → ℕ) → World K G Q → Prop}
    (hP : ∀ n w key r w', P n w → key ∈ L → n key = 0 →
      0 < (S key).totalNumberOfRequestsToBeGenerated → (S key).IsRequest 0 r →
      Dispatched (S key) 0 r w w' → P (Function.update n key 1) w')
    {ks : List DemandStreamKey} (hks : ks ⊆ L) (hnodup : ks.Nodup) :
    ∀ (n : DemandStreamKey → ℕ) (w : World K G Q) (t : ℤ), Tracks L S n w → P n w →
      (∀ key ∈ ks, n key = 0) → ∃ n' w',
        iterateStreams .STA_ORD ks t w = .ok
          (t + (ks.map fun key => (S key).totalNumberOfRequestsToBeGenerated).sum) w' ∧
        Tracks L S n' w' ∧ P n' w' ∧ (∀ key ∈ ks, n' key = firstCount (S key)) ∧
        ∀ key ∉ ks, n' key = n key := by
  induction ks with
  | nil =>
    intro n w t h hp _
    exact ⟨n, w, by simp [DemandManager.iterateStreams], h, hp, by simp, by simp⟩
  | cons key ks ih =>
    intro n w t h hp hn
    have hkeys : key ∉ ks := (List.nodup_cons.mp hnodup).1
    obtain ⟨n₁, w₁, hn₁, htr, hp₁, hstep⟩ := h.iterateStream hq hS hP hp
      (hks List.mem_cons_self) (hn key List.mem_cons_self)
    have hother {k : DemandStreamKey} (hne : k ≠ key) : n₁ k = n k := by
      rw [hn₁, Function.update_of_ne hne]
    have hzero : ∀ k ∈ ks, n₁ k = 0 := by
      intro k hk
      rw [hother (by rintro rfl; exact hkeys hk)]
      exact hn k (List.mem_cons_of_mem _ hk)
    obtain ⟨n', w', hrun, htr', hp', hin, hout⟩ := ih
      (fun k hk => hks (List.mem_cons_of_mem _ hk)) (List.nodup_cons.mp hnodup).2 n₁ w₁
      (t + (S key).totalNumberOfRequestsToBeGenerated) htr hp₁ hzero
    refine ⟨n', w', ?_, htr', hp', ?_, ?_⟩
    · rw [hstep, hrun, List.map_cons, List.sum_cons, add_assoc]
    · intro k hk
      rcases List.mem_cons.mp hk with rfl | hk
      · rw [hout k hkeys, hn₁, Function.update_self]
      · exact hin k hk
    · intro k hk
      rw [List.mem_cons, not_or] at hk
      rw [hout k hk.2, hother hk.1]

/-- The streams of a start, with nothing generated yet. -/
lemma Ready.tracks (hS : Ready L S) (hlist : w.demandStreamList = L)
    (hstream : ∀ key ∈ L, w.demandStream key = S key) : Tracks L S (fun _ => 0) w :=
  ⟨hlist, fun key hkey => by
    rw [hstream key hkey, (hS.started key hkey).fresh.after_zero]⟩

lemma generateFirstRequests_ok {m : DemandGenerationMethod} {t : ℤ} {w' : World K G Q}
    (h : iterateStreams m w.demandStreamList 0 w = .ok t w') :
    generateFirstRequests m w = .ok t { w' with actualTotal := t } := by
  unfold generateFirstRequests
  rw [get_bind, bind_ok h]
  rfl

/-! ### Service calls -/

section Serve

variable {m : DemandGenerationMethod} {key : DemandStreamKey}

lemma serve_popEvent_none (h : EventQueue.popEvent w.queue = none) :
    serve m .popEvent w = .ok 0 w := by
  simp [serve, h]

lemma serve_popEvent_some {e : EventStruct K} {q : Q}
    (h : EventQueue.popEvent w.queue = some (e, q)) :
    serve m .popEvent w = .ok 1 { w with queue := q } := by
  simp only [serve, get_bind, h]
  rfl

lemma serve_next {w' : World K G Q} (hkey : key ∈ w.demandStreamList)
    (hstill : stillHavingRequestsToBeGenerated w key m = true)
    (h : generateNextRequest key m w = .ok r w') :
    serve m (.generateNextRequest key) w = .ok 0 w' := by
  simp only [serve, get_bind, hkey, hstill, and_self, if_true]
  rw [bind_ok h]
  rfl

lemma serve_next_throw {w' : World K G Q} {e : Fault} (hkey : key ∈ w.demandStreamList)
    (hstill : stillHavingRequestsToBeGenerated w key m = true)
    (h : generateNextRequest key m w = .error e w') :
    serve m (.generateNextRequest key) w = .error e w' := by
  simp only [serve, get_bind, hkey, hstill, and_self, if_true]
  exact bind_error h

lemma serve_next_skip (h : ¬ (key ∈ w.demandStreamList ∧
    stillHavingRequestsToBeGenerated w key m = true)) :
    serve m (.generateNextRequest key) w = .ok 0 w := by
  simp only [serve, get_bind, h, if_false]
  rfl

lemma serve_first {t : ℤ} {w' : World K G Q} (h : generateFirstRequests m w = .ok t w') :
    serve m .generateFirstRequests w = .ok 0 w' := by
  simp only [serve]
  rw [bind_ok h]
  rfl

lemma serveAll_cons {c : ServiceCall} {cs : List ServiceCall} {p : ℕ} {w' : World K G Q}
    (h : serve m c w = .ok p w') {k : ℕ} {w'' : World K G Q}
    (hs : serveAll m cs w' = .ok k w'') : serveAll m (c :: cs) w = .ok (p + k) w'' := by
  unfold serveAll
  rw [bind_ok h, bind_ok hs]
  rfl

end Serve

end DemandManager

end Trademgen
