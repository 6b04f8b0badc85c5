import Trademgen.DemandManagerSpec

/-!
The actual total of booking requests against the queue.

A request that is not put in the queue is taken off the total, but the first requests are drawn
before the total is written: those of them that were dropped stay counted.
-/

set_option linter.unusedSectionVars false

namespace Trademgen

open Faulting EventQueue DemandManager

variable {K G Q : Type} [Field K] [LinearOrder K] [FloorRing K] [Libm K] [RandomGeneration K G]
  [EventQueue K Q]

/-- The number of events put in the queue between two worlds, between which so many were popped. -/
def enqueued (w₀ w : World K G Q) (popped : ℕ) : ℤ :=
  Multiset.card (contents w.queue) + popped - Multiset.card (contents w₀.queue)

/-- The number of requests that the streams have still to generate. -/
def World.toBeGenerated (w : World K G Q) : ℤ :=
  (w.demandStreamList.map fun key => (w.demandStream key).totalNumberOfRequestsToBeGenerated
    - (w.demandStream key).randomGenerationContext.numberOfRequestsGeneratedSoFar).sum

/-- A sum over keys without repetition, when the term of one key changes. -/
lemma sum_map_update {L : List DemandStreamKey} (hL : L.Nodup) {key : DemandStreamKey}
    (hkey : key ∈ L) {f g : DemandStreamKey → ℤ} (h : ∀ k, k ≠ key → g k = f k) :
    (L.map g).sum = (L.map f).sum + (g key - f key) := by
  induction L with
  | nil => simp at hkey
  | cons k ks ih =>
    obtain ⟨hk, hks⟩ := List.nodup_cons.mp hL
    rw [List.map_cons, List.map_cons, List.sum_cons, List.sum_cons]
    rcases List.mem_cons.mp hkey with rfl | hkey
    · have hmap : ks.map g = ks.map f :=
        List.map_congr_left fun x hx => h x (by rintro rfl; exact hk hx)
      rw [hmap]
      ring
    · rw [ih hks hkey, h k (by rintro rfl; exact hk hkey)]
      ring

section Accounting

variable {L : List DemandStreamKey} {S : DemandStreamKey → DemandStream K G}
  {n : DemandStreamKey → ℕ} {w w₀ : World K G Q}

lemma DemandManager.Tracks.toBeGenerated (h : Tracks L S n w) :
    w.toBeGenerated
      = (L.map fun key => (S key).totalNumberOfRequestsToBeGenerated - (n key : ℤ)).sum := by
  unfold World.toBeGenerated
  rw [h.list]
  refine congrArg List.sum (List.map_congr_left fun key hkey => ?_)
  rw [h.stream key hkey]
  rfl

lemma DemandManager.Tracks.toBeGenerated_next (hL : L.Nodup) (h : Tracks L S n w)
    {key : DemandStreamKey} (hkey : key ∈ L) {w' : World K G Q}
    (h' : Tracks L S (Function.update n key (n key + 1)) w') :
    w'.toBeGenerated = w.toBeGenerated - 1 := by
  have hsum := sum_map_update hL hkey
    (f := fun k => (S k).totalNumberOfRequestsToBeGenerated - (n k : ℤ))
    (g := fun k => (S k).totalNumberOfRequestsToBeGenerated
      - (Function.update n key (n key + 1) k : ℤ))
    fun k hk => by rw [Function.update_of_ne hk]
  rw [Function.update_self] at hsum
  rw [h.toBeGenerated, h'.toBeGenerated, hsum]
  push_cast
  ring

/-- The total exceeds the events put in the queue and the requests to come by a constant. -/
structure Accounts (L : List DemandStreamKey) (S : DemandStreamKey → DemandStream K G)
    (w₀ : World K G Q) (c : ℤ) (popped : ℕ) (w : World K G Q) : Prop where
  tracks : ∃ n, Tracks L S n w
  total : w.actualTotal = enqueued w₀ w popped + w.toBeGenerated + c

/-- **A call** other than the one for the first requests keeps the accounts. -/
lemma Accounts.serve (hq : EventQueueLaw K Q) (hS : Ready L S) {c : ℤ} {popped : ℕ}
    (h : Accounts L S w₀ c popped w) {call : ServiceCall} (hcall : call ≠ .generateFirstRequests) :
    ∃ p w', DemandManager.serve .STA_ORD call w = .ok p w' ∧
      Accounts L S w₀ c (popped + p) w' := by
  obtain ⟨n, htr⟩ := h.tracks
  cases call with
  | generateFirstRequests => exact absurd rfl hcall
  | popEvent =>
    cases hpop : EventQueue.popEvent w.queue with
    | none => exact ⟨0, w, serve_popEvent_none hpop, h⟩
    | some p =>
      obtain ⟨e, q⟩ := p
      refine ⟨1, _, serve_popEvent_some hpop, ⟨n, htr.list, htr.stream⟩, ?_⟩
      have hcard := congrArg Multiset.card (hq.popEvent _ _ _ hpop).1
      rw [Multiset.card_cons] at hcard
      have htotal := h.total
      have hgen : World.toBeGenerated { w with queue := q } = w.toBeGenerated := rfl
      rw [hgen]
      unfold enqueued at htotal ⊢
      push_cast
      change w.actualTotal = _
      omega
  | generateNextRequest key =>
    by_cases hguard : key ∈ w.demandStreamList ∧
        stillHavingRequestsToBeGenerated w key .STA_ORD = true
    · obtain ⟨hmem, hstill⟩ := hguard
      have hkey : key ∈ L := htr.list ▸ hmem
      obtain ⟨r, w', hr, -, htr', hdis⟩ :=
        htr.next hq hS hkey ((htr.stillHaving hkey).mp hstill)
      refine ⟨0, w', serve_next hmem hstill hr, ⟨_, htr'⟩, ?_⟩
      have hgen := htr.toBeGenerated_next hS.nodup hkey htr'
      have htotal := h.total
      unfold enqueued at htotal ⊢
      cases hdis with
      | queued _ t hqueue htot =>
        have hcard := congrArg Multiset.card hqueue
        rw [Multiset.card_cons] at hcard
        push_cast
        omega
      | dropped _ hqueue htot =>
        rw [hqueue]
        push_cast
        omega
    · exact ⟨0, w, serve_next_skip hguard, h⟩

lemma Accounts.serveAll (hq : EventQueueLaw K Q) (hS : Ready L S) {c : ℤ}
    {calls : List ServiceCall} (hcalls : .generateFirstRequests ∉ calls) :
    ∀ {popped : ℕ} {w : World K G Q}, Accounts L S w₀ c popped w →
      ∃ p w', DemandManager.serveAll .STA_ORD calls w = .ok p w' ∧
        Accounts L S w₀ c (popped + p) w' := by
  induction calls with
  | nil => exact fun {popped} {w} h => ⟨0, w, rfl, h⟩
  | cons call calls ih =>
    intro popped w h
    rw [List.mem_cons, not_or] at hcalls
    obtain ⟨p, w', hserve, h'⟩ := h.serve hq hS (Ne.symm hcalls.1)
    obtain ⟨p', w'', hserve', h''⟩ := ih hcalls.2 h'
    exact ⟨p + p', w'', serveAll_cons hserve hserve', by rwa [← Nat.add_assoc]⟩

open Classical in
/-- Whether the first request of a stream is dropped. -/
noncomputable def firstDropped (s : DemandStream K G) : ℕ :=
  if 0 < s.totalNumberOfRequestsToBeGenerated ∧ ¬ s.Punctual 0 then 1 else 0

open Classical in
/-- Whether the first request of a stream was put in the queue, after `n` requests. -/
noncomputable def firstQueued (s : DemandStream K G) (n : ℕ) : ℤ :=
  if n = 0 ∨ ¬ s.Punctual 0 then 0 else 1

@[simp] lemma firstQueued_zero (s : DemandStream K G) : firstQueued s 0 = 0 := by
  simp [firstQueued]

lemma firstQueued_punctual {s : DemandStream K G} (h : s.Punctual 0) : firstQueued s 1 = 1 := by
  simp [firstQueued, h]

lemma firstQueued_late {s : DemandStream K G} (h : ¬ s.Punctual 0) : firstQueued s 1 = 0 := by
  simp [firstQueued, h]

/-- A first request is queued, dropped or not generated. -/
lemma firstCount_eq (s : DemandStream K G) :
    (firstCount s : ℤ) = firstQueued s (firstCount s) + firstDropped s := by
  unfold firstCount firstQueued firstDropped
  by_cases h : 0 < s.totalNumberOfRequestsToBeGenerated <;> by_cases hp : s.Punctual 0 <;>
    simp [h, hp]

/-- While the first requests are generated, the queue holds those that were put there. -/
def FirstQueued (L : List DemandStreamKey) (S : DemandStreamKey → DemandStream K G)
    (w₀ : World K G Q) (n : DemandStreamKey → ℕ) (w : World K G Q) : Prop :=
  (Multiset.card (contents w.queue) : ℤ)
    = Multiset.card (contents w₀.queue) + (L.map fun key => firstQueued (S key) (n key)).sum

lemma FirstQueued.next (hS : Ready L S) {w' : World K G Q} {key : DemandStreamKey}
    {r : BookingRequestStruct K} (h : FirstQueued L S w₀ n w) (hkey : key ∈ L) (hn : n key = 0)
    (hdis : Dispatched (S key) 0 r w w') : FirstQueued L S w₀ (Function.update n key 1) w' := by
  have hsum := sum_map_update hS.nodup hkey (f := fun k => firstQueued (S k) (n k))
    (g := fun k => firstQueued (S k) (Function.update n key 1 k))
    fun k hk => by rw [Function.update_of_ne hk]
  rw [Function.update_self, hn, firstQueued_zero] at hsum
  unfold FirstQueued at h ⊢
  rw [hsum]
  cases hdis with
  | queued hpun t hqueue _ =>
    rw [hqueue, Multiset.card_cons, firstQueued_punctual hpun]
    push_cast
    omega
  | dropped hpun hqueue _ =>
    rw [hqueue, firstQueued_late hpun]
    omega

/-- **The first requests** leave the total too high by the number of those that were dropped. -/
lemma accounts_first (hq : EventQueueLaw K Q) (hS : Ready L S) (hlist : w₀.demandStreamList = L)
    (hstream : ∀ key ∈ L, w₀.demandStream key = S key) :
    ∃ t w, generateFirstRequests .STA_ORD w₀ = .ok t w ∧
      Accounts L S w₀ ((L.map fun key => firstDropped (S key)).sum : ℕ) 0 w := by
  have h0 : FirstQueued L S w₀ (fun _ => 0) w₀ := by simp [FirstQueued]
  obtain ⟨n, w, hrun, htr, hqueued, hin, -⟩ := Tracks.iterateStreams hq hS
    (P := FirstQueued L S w₀) (fun n w key r w' hp hkey hn _ _ hdis => hp.next hS hkey hn hdis)
    (List.Subset.refl L) hS.nodup _ _ 0 (hS.tracks hlist hstream) h0 fun _ _ => rfl
  rw [zero_add] at hrun
  set total := (L.map fun key => (S key).totalNumberOfRequestsToBeGenerated).sum with htotal
  have hgen : World.toBeGenerated { w with actualTotal := total } = w.toBeGenerated := rfl
  refine ⟨total, { w with actualTotal := total }, generateFirstRequests_ok (by rw [hlist, hrun]),
    ⟨n, htr.list, htr.stream⟩, ?_⟩
  have hsplit : total = (L.map fun key => firstQueued (S key) (n key)).sum
      + (L.map fun key => (S key).totalNumberOfRequestsToBeGenerated - (n key : ℤ)).sum
      + (L.map fun key => (firstDropped (S key) : ℤ)).sum := by
    rw [htotal, ← List.sum_map_add, ← List.sum_map_add]
    refine congrArg List.sum (List.map_congr_left fun key hkey => ?_)
    have hcount := firstCount_eq (S key)
    rw [hin key hkey]
    omega
  have hcast : ((L.map fun key => firstDropped (S key)).sum : ℤ)
      = (L.map fun key => (firstDropped (S key) : ℤ)).sum := by
    rw [Nat.cast_list_sum, List.map_map]
    rfl
  unfold FirstQueued at hqueued
  rw [hgen, htr.toBeGenerated, hcast]
  unfold enqueued
  change total = _
  rw [hsplit]
  change _ = ((Multiset.card (contents w.queue) : ℤ) + (0 : ℕ) - _) + _ + _
  rw [hqueued]
  push_cast
  ring

/-- **The total against the queue**: after the first requests, and after any calls that follow
them, the total equals the events put in the queue and the requests still to be generated exactly
when no stream had its first request dropped. -/
theorem actualTotal_iff (hq : EventQueueLaw K Q) {w₀ : World K G Q}
    (hS : Ready w₀.demandStreamList w₀.demandStream) {calls : List ServiceCall}
    (hcalls : .generateFirstRequests ∉ calls) :
    ∃ popped w,
      DemandManager.serveAll .STA_ORD (.generateFirstRequests :: calls) w₀ = .ok popped w ∧
      (w.actualTotal = enqueued w₀ w popped + w.toBeGenerated ↔
        ∀ key ∈ w₀.demandStreamList,
          0 < (w₀.demandStream key).totalNumberOfRequestsToBeGenerated →
            (w₀.demandStream key).Punctual 0) := by
  obtain ⟨t, w₁, hfirst, hacc⟩ := accounts_first hq hS rfl fun _ _ => rfl
  obtain ⟨popped, w, hrest, hacc'⟩ := Accounts.serveAll hq hS hcalls hacc
  refine ⟨_, w, serveAll_cons (serve_first hfirst) hrest, ?_⟩
  have htotal := hacc'.total
  have hzero : (w.actualTotal = enqueued w₀ w (0 + popped) + w.toBeGenerated) ↔
      (w₀.demandStreamList.map fun key => firstDropped (w₀.demandStream key)).sum = 0 := by
    omega
  rw [hzero, List.sum_eq_zero_iff]
  refine ⟨fun h key hkey hpos => ?_, fun h x hx => ?_⟩
  · by_contra hpun
    have h1 := h _ (List.mem_map_of_mem hkey)
    rw [firstDropped, if_pos ⟨hpos, hpun⟩] at h1
    cases h1
  · obtain ⟨key, hkey, rfl⟩ := List.mem_map.mp hx
    exact if_neg fun hc => hc.2 (h key hkey hc.1)

/-! ### The total announced -/

/-- The streams of two worlds agree on the number of requests drawn. -/
def SameTotals (w w' : World K G Q) : Prop :=
  ∀ key, (w'.demandStream key).totalNumberOfRequestsToBeGenerated
    = (w.demandStream key).totalNumberOfRequestsToBeGenerated

lemma sameTotals_updateStream {key : DemandStreamKey} {s : DemandStream K G}
    (h : s.totalNumberOfRequestsToBeGenerated
      = (w.demandStream key).totalNumberOfRequestsToBeGenerated) :
    SameTotals w (updateStream key s w) := by
  intro k
  by_cases hk : k = key
  · rw [hk, updateStream_self, h]
  · rw [updateStream_of_ne hk]

lemma sameTotals_next {key : DemandStreamKey} {m : DemandGenerationMethod}
    {r : BookingRequestStruct K} {w' : World K G Q}
    (h : DemandManager.generateNextRequest key m w = .ok r w') : SameTotals w w' := by
  obtain ⟨g, s, hgen, rfl⟩ := generateNextRequest_eq_ok.mp h
  have hbase := DemandStream.sameBase_next w.generator m (w.demandStream key)
  rw [hgen, stateOf_ok] at hbase
  intro k
  rw [afterRequest_demandStream]
  exact sameTotals_updateStream (w := w) hbase.total k

/-- The loop over the streams adds up the numbers they drew. -/
lemma iterateStreams_total {m : DemandGenerationMethod} {ks : List DemandStreamKey} :
    ∀ {t t' : ℤ} {w w' : World K G Q}, DemandManager.iterateStreams m ks t w = .ok t' w' →
      t' = t + (ks.map fun key => (w.demandStream key).totalNumberOfRequestsToBeGenerated).sum := by
  induction ks with
  | nil =>
    intro t t' w w' h
    cases h
    simp
  | cons key ks ih =>
    intro t t' w w' h
    set w₁ := updateStream key ((w.demandStream key).setBoolFirstDateTimeRequest true) w with hw₁
    have h₁ : SameTotals w w₁ := sameTotals_updateStream rfl
    have hsum {w₂ : World K G Q} (h₂ : SameTotals w w₂) :
        (ks.map fun k => (w₂.demandStream k).totalNumberOfRequestsToBeGenerated).sum
          = (ks.map fun k => (w.demandStream k).totalNumberOfRequestsToBeGenerated).sum :=
      congrArg List.sum (List.map_congr_left fun k _ => h₂ k)
    rw [List.map_cons, List.sum_cons, ← add_assoc]
    cases hstill : stillHavingRequestsToBeGenerated w₁ key m with
    | false =>
      rw [iterateStreams_skip hw₁ hstill] at h
      rw [ih h, hsum h₁, h₁ key]
    | true =>
      cases hr : DemandManager.generateNextRequest key m w₁ with
      | error e w₂ =>
        rw [iterateStreams_throw hw₁ hstill hr] at h
        cases h
      | ok r w₂ =>
        have h₂ : SameTotals w w₂ := fun k => (sameTotals_next hr k).trans (h₁ k)
        rw [iterateStreams_next hw₁ hstill hr] at h
        rw [ih h, hsum h₂, h₁ key]

/-- A sum of numbers is the sum of their positive parts when none is negative. -/
lemma sum_eq_sum_max_iff {L : List DemandStreamKey} {f : DemandStreamKey → ℤ} :
    (L.map f).sum = (L.map fun key => max 0 (f key)).sum ↔ ∀ key ∈ L, 0 ≤ f key := by
  induction L with
  | nil => simp
  | cons key L ih =>
    have hrest : (L.map f).sum ≤ (L.map fun key => max 0 (f key)).sum :=
      List.sum_le_sum fun key _ => le_max_right 0 (f key)
    rw [List.forall_mem_cons, ← ih, List.map_cons, List.map_cons, List.sum_cons, List.sum_cons]
    omega

/-- **The total announced** is the number of requests that the streams generate exactly when no
stream drew a negative number of them. -/
theorem announced_iff {w w' : World K G Q} {t : ℤ}
    (hS : ∀ key ∈ w.demandStreamList, (w.demandStream key).Started)
    (h : DemandManager.generateFirstRequests .STA_ORD w = .ok t w') :
    w'.actualTotal = t ∧
      (∀ key ∈ w.demandStreamList, (w.demandStream key).Sound →
        ∃ n, DemandStream.Generates .STA_ORD (w.demandStream key) n) ∧
      ∀ n : DemandStreamKey → ℕ,
        (∀ key ∈ w.demandStreamList,
          DemandStream.Generates .STA_ORD (w.demandStream key) (n key)) →
        (t = (w.demandStreamList.map fun key => (n key : ℤ)).sum ↔
          ∀ key ∈ w.demandStreamList,
            0 ≤ (w.demandStream key).totalNumberOfRequestsToBeGenerated) := by
  unfold DemandManager.generateFirstRequests at h
  rw [get_bind] at h
  obtain ⟨t₁, w₁, hrun, h⟩ := bind_eq_ok.mp h
  cases h
  have htotal := iterateStreams_total hrun
  rw [zero_add] at htotal
  refine ⟨rfl, fun key hkey hsound => ⟨_, hsound.generates (hS key hkey).fresh⟩, fun n hn => ?_⟩
  have hcount : w.demandStreamList.map (fun key => (n key : ℤ)) = w.demandStreamList.map
      fun key => max 0 (w.demandStream key).totalNumberOfRequestsToBeGenerated := by
    refine List.map_congr_left fun key hkey => ?_
    have hrem : (w.demandStream key).remaining
        = (w.demandStream key).totalNumberOfRequestsToBeGenerated := by
      unfold DemandStream.remaining
      rw [(hS key hkey).fresh.context, sub_zero]
    rw [(hn key hkey).count, hrem]
  rw [htotal, hcount]
  exact sum_eq_sum_max_iff

end Accounting

section Real

open DemandStream

/-- One stream with `N` requests, all at eight o'clock on the day of departure, and a preferred
departure at the second `p` of that day. -/
noncomputable def lastMinute (p : ℤ) (N : ℕ) : World ℝ (Tape ℝ) (SortedQueue ℝ) :=
  .single (sampleStream [(0, (1 : ℝ))] p N 1 (Tape.const 0 1 0 Tape.zero_mem Tape.one_pos))
    (Tape.const 0 1 0 Tape.zero_mem Tape.one_pos)

@[simp] lemma lastMinute_total (p : ℤ) (N : ℕ) (key : DemandStreamKey) :
    ((lastMinute p N).demandStream key).totalNumberOfRequestsToBeGenerated = N :=
  sampleStream_total

@[simp] lemma lastMinute_punctual {p : ℤ} {N k : ℕ} {key : DemandStreamKey} :
    ((lastMinute p N).demandStream key).Punctual k ↔ 28800 < p :=
  punctual_sample

lemma lastMinute_ready (p : ℤ) (N : ℕ) :
    Ready (lastMinute p N).demandStreamList (lastMinute p N).demandStream := by
  refine ⟨by simp [lastMinute, World.single], fun key hkey => ?_, fun key _ => ?_,
    fun key _ => by simp, fun key _ => sound_sample (by simp)⟩
  · exact (List.mem_singleton.mp hkey).symm
  · exact sampleStream_started

theorem actualTotal_iff_sample :
    ∃ popped w, DemandManager.serveAll .STA_ORD [.generateFirstRequests, .popEvent]
        (lastMinute 36000 1) = .ok popped w ∧
      w.actualTotal = enqueued (lastMinute 36000 1) w popped + w.toBeGenerated := by
  obtain ⟨popped, w, hrun, hiff⟩ := actualTotal_iff SortedQueue.law (lastMinute_ready 36000 1)
    (by decide : .generateFirstRequests ∉ [ServiceCall.popEvent])
  exact ⟨popped, w, hrun, hiff.mpr fun key _ _ => by simp⟩

/-- With a preferred departure at six o'clock the only request is dropped, and it stays in the
total. -/
theorem actualTotal_wrong :
    ∃ t w, generateFirstRequests .STA_ORD (lastMinute 21600 1) = .ok t w ∧
      w.actualTotal ≠ enqueued (lastMinute 21600 1) w 0 + w.toBeGenerated := by
  obtain ⟨t, w, hrun, hacc⟩ := accounts_first SortedQueue.law (lastMinute_ready 21600 1) rfl
    fun _ _ => rfl
  refine ⟨t, w, hrun, fun heq => ?_⟩
  have hdropped : firstDropped ((lastMinute 21600 1).demandStream sampleKey) = 1 := by
    simp [firstDropped]
  have hsum : ((lastMinute 21600 1).demandStreamList.map fun key =>
      firstDropped ((lastMinute 21600 1).demandStream key)).sum = 1 := by
    change ([sampleKey].map fun key =>
      firstDropped ((lastMinute 21600 1).demandStream key)).sum = 1
    rw [List.map_singleton, List.sum_singleton, hdropped]
  have htotal := hacc.total
  rw [hsum] at htotal
  omega

theorem announced_iff_sample :
    ∃ t w, DemandManager.generateFirstRequests .STA_ORD (lastMinute 36000 2) = .ok t w ∧
      w.actualTotal = t ∧ t = ((lastMinute 36000 2).demandStreamList.map fun _ => (2 : ℤ)).sum := by
  have hready := lastMinute_ready 36000 2
  obtain ⟨t, w, hrun, -⟩ := accounts_first SortedQueue.law hready rfl fun _ _ => rfl
  obtain ⟨htotal, -, hiff⟩ := announced_iff hready.started hrun
  refine ⟨t, w, hrun, htotal, (hiff (fun _ => 2) fun key hkey => ?_).mpr hready.nonneg⟩
  have hgen := (hready.sound key hkey).generates (hready.started key hkey).fresh
  rwa [lastMinute_total] at hgen

/-- A stream that drew a negative number of requests, alone. -/
noncomputable def negativeSample : World ℝ (Tape ℝ) (SortedQueue ℝ) :=
  .single (sampleStream [(0, (1 : ℝ))] 36000 (-1) 1 (Tape.const 0 1 0 Tape.zero_mem Tape.one_pos))
    (Tape.const 0 1 0 Tape.zero_mem Tape.one_pos)

/-- The number drawn is announced, below zero as it is, and no request is generated. -/
theorem announced_negative :
    ∃ t w, DemandManager.generateFirstRequests .STA_ORD negativeSample = .ok t w ∧
      (∀ key ∈ negativeSample.demandStreamList, (negativeSample.demandStream key).Started ∧
        Generates .STA_ORD (negativeSample.demandStream key) 0) ∧
      t ≠ (negativeSample.demandStreamList.map fun _ => (0 : ℤ)).sum := by
  have htotal (key : DemandStreamKey) :
      (negativeSample.demandStream key).totalNumberOfRequestsToBeGenerated = -1 :=
    sampleStream_total
  have hstarted (key : DemandStreamKey) : (negativeSample.demandStream key).Started :=
    sampleStream_started
  have hfresh (key : DemandStreamKey) := (hstarted key).fresh
  have hstill (key : DemandStreamKey) :
      (negativeSample.demandStream key).stillHavingRequestsToBeGenerated .STA_ORD = false := by
    rw [← Bool.not_eq_true, stillHaving_iff_remaining, remaining, htotal, (hfresh key).context]
    norm_num
  have hrun : DemandManager.iterateStreams .STA_ORD negativeSample.demandStreamList 0 negativeSample
      = .ok (-1) (updateStream sampleKey ((negativeSample.demandStream sampleKey)
          |>.setBoolFirstDateTimeRequest true) negativeSample) := by
    change DemandManager.iterateStreams .STA_ORD [sampleKey] 0 negativeSample = _
    rw [iterateStreams_skip rfl]
    · rw [updateStream_self]
      change EStateM.Result.ok (0 + (negativeSample.demandStream
        sampleKey).totalNumberOfRequestsToBeGenerated) _ = _
      rw [htotal, zero_add]
    · unfold DemandManager.stillHavingRequestsToBeGenerated
      rw [updateStream_self]
      exact hstill sampleKey
  refine ⟨_, _, generateFirstRequests_ok hrun, fun key _ => ⟨hstarted key, .stop (hstill key)⟩, ?_⟩
  simp

end Real

end Trademgen
