import Trademgen.Accounting

/-!
The main loop with order statistics.

While a stream is not finished it has one request in the queue, unless its latest request was
dropped; such a stream is never asked for another one.
-/

set_option linter.unusedSectionVars false

namespace Trademgen

open Faulting EventQueue DemandManager

section Loop

variable {K G Q : Type} [Field K] [LinearOrder K] [FloorRing K] [Libm K] [RandomGeneration K G]
  [EventQueue K Q]

/-- The requests of a stream that wait in the queue. -/
def World.pending (w : World K G Q) (key : DemandStreamKey) : Multiset (BookingRequestStruct K) :=
  ((contents w.queue).map EventStruct.bookingRequest).filter fun r => r.generatorKey = key

lemma pending_cons {w w' : World K G Q} {e : EventStruct K}
    (h : contents w'.queue = e ::ₘ contents w.queue) :
    w'.pending e.bookingRequest.generatorKey
      = e.bookingRequest ::ₘ w.pending e.bookingRequest.generatorKey := by
  unfold World.pending
  rw [h, Multiset.map_cons]
  exact Multiset.filter_cons_of_pos _ rfl

lemma pending_cons_of_ne {w w' : World K G Q} {e : EventStruct K}
    (h : contents w'.queue = e ::ₘ contents w.queue) {key : DemandStreamKey}
    (hkey : key ≠ e.bookingRequest.generatorKey) : w'.pending key = w.pending key := by
  unfold World.pending
  rw [h, Multiset.map_cons]
  exact Multiset.filter_cons_of_neg _ (Ne.symm hkey)

lemma pending_congr {w w' : World K G Q} (h : w'.queue = w.queue) (key : DemandStreamKey) :
    w'.pending key = w.pending key := by
  unfold World.pending
  rw [h]

/-- How far a stream has come, after `n` requests, when `M` are its requests in the queue. -/
inductive Progress (s : DemandStream K G) (n : ℕ) (M : Multiset (BookingRequestStruct K)) : Prop
  /-- The latest request is in the queue. -/
  | waiting (k : ℕ) (r : BookingRequestStruct K) (hn : n = k + 1)
      (hk : (k : ℤ) < s.totalNumberOfRequestsToBeGenerated) (hM : M = {r}) (hr : s.IsRequest k r)
      (punctual : ∀ i ≤ k, s.Punctual i)
  /-- The latest request was dropped. -/
  | dropped (k : ℕ) (hn : n = k + 1) (hk : (k : ℤ) < s.totalNumberOfRequestsToBeGenerated)
      (hM : M = 0) (late : ¬ s.Punctual k) (punctual : ∀ i < k, s.Punctual i)
  /-- The stream is finished, and its latest request was popped. -/
  | finished (hn : (n : ℤ) = s.totalNumberOfRequestsToBeGenerated) (hM : M = 0)
      (punctual : ∀ i < n, s.Punctual i)

lemma Progress.le {s : DemandStream K G} {n : ℕ} {M : Multiset (BookingRequestStruct K)}
    (h : Progress s n M) : (n : ℤ) ≤ s.totalNumberOfRequestsToBeGenerated := by
  cases h with
  | waiting k r hn hk => omega
  | dropped k hn hk => omega
  | finished hn => exact hn.le

/-- Once the queue is empty, all the requests of a stream were generated if all of them but the
last are punctual, and only then. -/
lemma Progress.eq_iff {s : DemandStream K G} {n : ℕ} (h : Progress s n 0) :
    (n : ℤ) = s.totalNumberOfRequestsToBeGenerated ↔
      ∀ i : ℕ, (i : ℤ) + 1 < s.totalNumberOfRequestsToBeGenerated → s.Punctual i := by
  cases h with
  | waiting k r hn hk hM => exact absurd hM (Multiset.zero_ne_singleton r)
  | dropped k hn hk hM late punctual =>
    refine ⟨fun heq i hi => ?_, fun hall => ?_⟩
    · exact punctual i (by omega)
    · by_contra hne
      exact late (hall k (by omega))
  | finished hn hM punctual => exact ⟨fun _ i hi => punctual i (by omega), fun _ => hn⟩

/-- A request dispatched is the new state of its stream. -/
lemma Progress.of_dispatched {s : DemandStream K G} {k : ℕ} {r : BookingRequestStruct K}
    {w w' : World K G Q} (hr : s.IsRequest k r)
    (hk : (k : ℤ) < s.totalNumberOfRequestsToBeGenerated) (hdis : Dispatched s k r w w')
    (hpending : w.pending s.key = 0) (punctual : ∀ i < k, s.Punctual i) :
    Progress s (k + 1) (w'.pending s.key) := by
  cases hdis with
  | queued hpun t hqueue _ =>
    refine .waiting k r rfl hk ?_ hr fun i hi => ?_
    · have hcons := pending_cons hqueue
      rw [hr.generatorKey, hpending] at hcons
      exact hcons
    · rcases hi.lt_or_eq with hlt | rfl
      · exact punctual i hlt
      · exact hpun
  | dropped hpun hqueue _ =>
    exact .dropped k rfl hk ((pending_congr hqueue _).trans hpending) hpun punctual

lemma pending_of_dispatched {s : DemandStream K G} {k : ℕ} {r : BookingRequestStruct K}
    {w w' : World K G Q} (hr : s.IsRequest k r) (hdis : Dispatched s k r w w')
    {key : DemandStreamKey} (hkey : key ≠ s.key) : w'.pending key = w.pending key := by
  cases hdis with
  | queued _ t hqueue _ => exact pending_cons_of_ne hqueue fun h => hkey (h.trans hr.generatorKey)
  | dropped _ hqueue _ => exact pending_congr hqueue key

/-- Every event in the queue belongs to a stream. -/
def World.Owned (w : World K G Q) (L : List DemandStreamKey) : Prop :=
  ∀ e ∈ contents w.queue, e.bookingRequest.generatorKey ∈ L

lemma World.Owned.of_dispatched {s : DemandStream K G} {k : ℕ} {r : BookingRequestStruct K}
    {w w' : World K G Q} {L : List DemandStreamKey} (h : w.Owned L) (hkey : s.key ∈ L)
    (hr : s.IsRequest k r) (hdis : Dispatched s k r w w') : w'.Owned L := by
  cases hdis with
  | queued _ t hqueue _ =>
    intro e he
    rw [hqueue, Multiset.mem_cons] at he
    rcases he with rfl | he
    · rw [hr.generatorKey]
      exact hkey
    · exact h e he
  | dropped _ hqueue _ =>
    unfold World.Owned
    rw [hqueue]
    exact h

variable {L : List DemandStreamKey} {S : DemandStreamKey → DemandStream K G}
  {n : DemandStreamKey → ℕ} {w : World K G Q}

/-- The worlds that the main loop runs through. -/
structure Running (L : List DemandStreamKey) (S : DemandStreamKey → DemandStream K G)
    (n : DemandStreamKey → ℕ) (w : World K G Q) : Prop where
  tracks : Tracks L S n w
  owned : w.Owned L
  progress : ∀ key ∈ L, Progress (S key) (n key) (w.pending key)

/-- **The first requests** bring the main loop to its start. -/
lemma Ready.running (hq : EventQueueLaw K Q) (hS : Ready L S) (hlist : w.demandStreamList = L)
    (hstream : ∀ key ∈ L, w.demandStream key = S key) (hempty : contents w.queue = 0) :
    ∃ t n w', generateFirstRequests .STA_ORD w = .ok t w' ∧ Running L S n w' := by
  obtain ⟨n, w', hrun, htr, ⟨howned, hfirst⟩, hin, -⟩ := Tracks.iterateStreams hq hS
    (P := fun n w => w.Owned L ∧ ∀ key ∈ L,
      n key = 0 ∧ w.pending key = 0 ∨ Progress (S key) (n key) (w.pending key))
    (fun n w key r w' hp hkey hn hpos hr hdis => by
      have hself : (S key).key = key := hS.key key hkey
      refine ⟨hp.1.of_dispatched (by rwa [hself]) hr hdis, fun key' hkey' => ?_⟩
      by_cases heq : key' = key
      · subst heq
        rw [Function.update_self]
        have hzero : w.pending key' = 0 := by
          rcases hp.2 key' hkey' with ⟨-, h⟩ | h
          · exact h
          · cases h with
            | waiting k r hn' => omega
            | dropped k hn' => omega
            | finished hn' => omega
        have h := Progress.of_dispatched hr hpos hdis (by rwa [hself])
          fun i hi => absurd hi i.not_lt_zero
        rw [hself] at h
        exact .inr h
      · rw [Function.update_of_ne heq, pending_of_dispatched hr hdis (by rwa [hself])]
        exact hp.2 key' hkey')
    (List.Subset.refl L) hS.nodup _ w 0 (hS.tracks hlist hstream)
    ⟨fun e he => by rw [hempty] at he; simp at he,
      fun key _ => .inl ⟨rfl, by unfold World.pending; rw [hempty]; rfl⟩⟩ fun _ _ => rfl
  rw [← hlist] at hrun
  refine ⟨_, n, _, generateFirstRequests_ok hrun, ⟨htr.list, htr.stream⟩,
    howned, fun key hkey => ?_⟩
  rcases hfirst key hkey with ⟨hn, hzero⟩ | h
  · have hcount := hin key hkey
    have hpos := hS.nonneg key hkey
    rw [hn, firstCount] at hcount
    split_ifs at hcount with hlt
    exact .finished (by omega) hzero fun i hi => absurd hi (by omega)
  · exact h

end Loop

/-! ### The run -/

section Body

variable {K G Q : Type} [Field K] [LinearOrder K] [FloorRing K] [Libm K] [RandomGeneration K G]
  [EventQueue K Q] {m : DemandGenerationMethod} {w w' : World K G Q} {e : EventStruct K} {q : Q}

lemma mainLoopBody_stop (hpop : popEvent w.queue = some (e, q))
    (hstill : stillHavingRequestsToBeGenerated w e.bookingRequest.generatorKey m = false) :
    mainLoopBody m w = .ok ⟨⟩ { w with queue := q } := by
  simp only [mainLoopBody, get_bind, hpop, set_bind, hstill]
  rfl

lemma mainLoopBody_next {r : BookingRequestStruct K} (hpop : popEvent w.queue = some (e, q))
    (hstill : stillHavingRequestsToBeGenerated w e.bookingRequest.generatorKey m = true)
    (hr : generateNextRequest e.bookingRequest.generatorKey m { w with queue := q } = .ok r w')
    (ht : e.bookingRequest.requestDateTime ≤ r.requestDateTime) :
    mainLoopBody m w = .ok ⟨⟩ w' := by
  have hduration : ¬ Int.tdiv (r.requestDateTime - e.bookingRequest.requestDateTime) 1000 < 0 :=
    not_lt.mpr (Int.tdiv_nonneg (Int.sub_nonneg_of_le ht) (by norm_num))
  simp only [mainLoopBody, get_bind, hpop, set_bind, hstill, if_true]
  rw [bind_ok hr, if_neg hduration]
  rfl

lemma mainLoop_done {j : ℕ} (h : isQueueDone w.queue = true) :
    mainLoop m (j + 1) w = .ok ⟨⟩ w := by
  simp only [mainLoop, get_bind, h]
  rfl

lemma mainLoop_step {j : ℕ} (h : isQueueDone w.queue = false)
    (hbody : mainLoopBody m w = .ok ⟨⟩ w') : mainLoop m (j + 1) w = mainLoop m j w' := by
  simp only [mainLoop, get_bind, h, Bool.false_eq_true, if_false]
  exact bind_ok hbody

end Body

section Real

variable {G Q : Type} [RandomGeneration ℝ G] [EventQueue ℝ Q]
  {L : List DemandStreamKey} {S : DemandStreamKey → DemandStream ℝ G}
  {n : DemandStreamKey → ℕ} {w : World ℝ G Q}

/-- Consecutive requests of a stream do not go back in time. -/
lemma IsRequest.time_le {s : DemandStream ℝ G} (hu : UniformLaw ℝ G) (hs : s.Sound) {k : ℕ}
    {r r' : BookingRequestStruct ℝ} (hr : s.IsRequest k r) (hr' : s.IsRequest (k + 1) r') :
    r.requestDateTime ≤ r'.requestDateTime := by
  obtain ⟨d, hd, ht⟩ := hr.time
  obtain ⟨d', hd', ht'⟩ := hr'.time
  have hp : s.probabilityOf k ≤ s.probabilityOf (k + 1) := by
    have := DemandStream.complementAfter_strictAnti hu s.totalNumberOfRequestsToBeGenerated
      s.requestDateTimeRandomGenerator (Nat.lt_succ_self (k + 1))
    unfold DemandStream.probabilityOf
    linarith
  have hdd := s.demandCharacteristics.arrivalPattern.getValue_mono hs.pattern hp hd hd'
  have hmono := DemandStream.convertFloatIntoDuration_mono hdd
  rw [ht, ht']
  exact Int.add_le_add_left hmono _

/-- Between the pop of the latest request of a stream and the next request: nothing of the stream
waits, and the other streams are as they were. -/
structure Popped (L : List DemandStreamKey) (S : DemandStreamKey → DemandStream ℝ G)
    (n : DemandStreamKey → ℕ) (r : BookingRequestStruct ℝ) (w : World ℝ G Q) : Prop where
  mem : r.generatorKey ∈ L
  tracks : Tracks L S n w
  owned : w.Owned L
  request : ∃ k, n r.generatorKey = k + 1 ∧ (S r.generatorKey).IsRequest k r
  le : (n r.generatorKey : ℤ) ≤ (S r.generatorKey).totalNumberOfRequestsToBeGenerated
  punctual : ∀ i < n r.generatorKey, (S r.generatorKey).Punctual i
  pending : w.pending r.generatorKey = 0
  others : ∀ key ∈ L, key ≠ r.generatorKey → Progress (S key) (n key) (w.pending key)

lemma Running.pop (hq : EventQueueLaw ℝ Q) (h : Running L S n w) {e : EventStruct ℝ} {q : Q}
    (hpop : popEvent w.queue = some (e, q)) :
    Popped L S n e.bookingRequest ({ w with queue := q } : World ℝ G Q) := by
  obtain ⟨hcontents, -⟩ := hq.popEvent _ _ _ hpop
  set w₁ : World ℝ G Q := { w with queue := q } with hw₁
  have hkey : e.bookingRequest.generatorKey ∈ L :=
    h.owned e (by rw [hcontents]; exact Multiset.mem_cons_self _ _)
  set key := e.bookingRequest.generatorKey with hkeydef
  have hpending : w.pending key = e.bookingRequest ::ₘ w₁.pending key := pending_cons hcontents
  have howned : w₁.Owned L := fun e' he' =>
    h.owned e' (by rw [hcontents]; exact Multiset.mem_cons_of_mem he')
  have hothers (key' : DemandStreamKey) (hkey' : key' ∈ L) (hne : key' ≠ key) :
      Progress (S key') (n key') (w₁.pending key') := by
    have heq : w.pending key' = w₁.pending key' := pending_cons_of_ne hcontents hne
    rw [← heq]
    exact h.progress key' hkey'
  -- A stream that has a request in the queue is waiting for it.
  cases h.progress key hkey with
  | dropped k hn hk hM => exact absurd (hpending.symm.trans hM) Multiset.cons_ne_zero
  | finished hn hM => exact absurd (hpending.symm.trans hM) Multiset.cons_ne_zero
  | waiting k r hn hk hM hr punctual =>
    obtain ⟨hre, hzero⟩ := (Multiset.singleton_eq_cons_iff _).mp (hM.symm.trans hpending)
    subst hre
    have hle : (n key : ℤ) ≤ (S key).totalNumberOfRequestsToBeGenerated := by omega
    have hpunctual (i : ℕ) (hi : i < n key) : (S key).Punctual i := punctual i (by omega)
    exact ⟨hkey, ⟨h.tracks.list, h.tracks.stream⟩, howned, ⟨k, hn, hr⟩, hle, hpunctual, hzero,
      hothers⟩

/-- A stream that has no request left is finished. -/
lemma Popped.finished {r : BookingRequestStruct ℝ} (h : Popped L S n r w)
    (hN : ¬ (n r.generatorKey : ℤ) < (S r.generatorKey).totalNumberOfRequestsToBeGenerated) :
    Running L S n w := by
  refine ⟨h.tracks, h.owned, fun key hkey => ?_⟩
  by_cases heq : key = r.generatorKey
  · subst heq
    exact .finished (le_antisymm h.le (not_lt.mp hN)) h.pending h.punctual
  · exact h.others key hkey heq

/-- Another one has the next request dispatched. -/
lemma Popped.dispatched (hS : Ready L S) {r r' : BookingRequestStruct ℝ} {w' : World ℝ G Q}
    (h : Popped L S n r w)
    (hN : (n r.generatorKey : ℤ) < (S r.generatorKey).totalNumberOfRequestsToBeGenerated)
    (hr' : (S r.generatorKey).IsRequest (n r.generatorKey) r')
    (htracks : Tracks L S (Function.update n r.generatorKey (n r.generatorKey + 1)) w')
    (hdis : Dispatched (S r.generatorKey) (n r.generatorKey) r' w w') :
    Running L S (Function.update n r.generatorKey (n r.generatorKey + 1)) w' := by
  have hself : (S r.generatorKey).key = r.generatorKey := hS.key _ h.mem
  refine ⟨htracks, h.owned.of_dispatched (by rw [hself]; exact h.mem) hr' hdis, fun key hkey => ?_⟩
  by_cases heq : key = r.generatorKey
  · subst heq
    have hp := Progress.of_dispatched hr' hN hdis (by rw [hself]; exact h.pending) h.punctual
    rw [hself] at hp
    rw [Function.update_self]
    exact hp
  · rw [Function.update_of_ne heq, pending_of_dispatched hr' hdis (by rwa [hself])]
    exact h.others key hkey heq

/-- **An iteration** pops the request of a stream, and generates its next one if any remains. -/
theorem Running.mainLoopBody (hq : EventQueueLaw ℝ Q) (hu : UniformLaw ℝ G) (hS : Ready L S)
    (h : Running L S n w) (hne : contents w.queue ≠ 0) :
    ∃ n' w', DemandManager.mainLoopBody .STA_ORD w = .ok ⟨⟩ w' ∧ Running L S n' w' ∧
      2 * w'.toBeGenerated + Multiset.card (contents w'.queue)
        < 2 * w.toBeGenerated + Multiset.card (contents w.queue) := by
  cases hpop : popEvent w.queue with
  | none => exact absurd (hq.popEvent_done _ hpop) hne
  | some p =>
    obtain ⟨e, q⟩ := p
    have hpopped := h.pop hq hpop
    set w₁ : World ℝ G Q := { w with queue := q } with hw₁
    set key := e.bookingRequest.generatorKey with hkey
    have hgen₁ : w₁.toBeGenerated = w.toBeGenerated := rfl
    have hcard : Multiset.card (contents w.queue) = Multiset.card (contents w₁.queue) + 1 := by
      rw [(hq.popEvent _ _ _ hpop).1, Multiset.card_cons]
    by_cases hlt : (n key : ℤ) < (S key).totalNumberOfRequestsToBeGenerated
    · obtain ⟨r', w', hrun, hr', htr', hdis⟩ := hpopped.tracks.next hq hS hpopped.mem hlt
      obtain ⟨k, hn, hr⟩ := hpopped.request
      have hle : e.bookingRequest.requestDateTime ≤ r'.requestDateTime :=
        IsRequest.time_le hu (hS.sound key hpopped.mem) hr (hn ▸ hr')
      refine ⟨_, w', mainLoopBody_next hpop ((h.tracks.stillHaving hpopped.mem).mpr hlt) hrun hle,
        hpopped.dispatched hS hlt hr' htr' hdis, ?_⟩
      have hgen := hpopped.tracks.toBeGenerated_next hS.nodup hpopped.mem htr'
      rw [hcard]
      cases hdis with
      | queued _ t hqueue _ =>
        rw [hqueue, Multiset.card_cons]
        push_cast
        omega
      | dropped _ hqueue _ =>
        rw [hqueue]
        push_cast
        omega
    · have hstill : stillHavingRequestsToBeGenerated w key .STA_ORD = false := by
        rw [← Bool.not_eq_true, h.tracks.stillHaving hpopped.mem]
        exact hlt
      refine ⟨n, w₁, mainLoopBody_stop hpop hstill, hpopped.finished hlt, ?_⟩
      rw [hgen₁, hcard]
      push_cast
      omega

lemma Running.toBeGenerated_nonneg (h : Running L S n w) : 0 ≤ w.toBeGenerated := by
  rw [h.tracks.toBeGenerated]
  refine List.sum_nonneg fun x hx => ?_
  obtain ⟨key, hkey, rfl⟩ := List.mem_map.mp hx
  have := (h.progress key hkey).le
  omega

/-- **The main loop** ends with an empty queue. -/
lemma Running.mainLoop (hq : EventQueueLaw ℝ Q) (hu : UniformLaw ℝ G) (hS : Ready L S) :
    ∀ (j : ℕ) {n : DemandStreamKey → ℕ} {w : World ℝ G Q}, Running L S n w →
      2 * w.toBeGenerated + Multiset.card (contents w.queue) ≤ j →
      ∃ n' w', DemandManager.mainLoop .STA_ORD (j + 1) w = .ok ⟨⟩ w' ∧ Running L S n' w' ∧
        contents w'.queue = 0 := by
  intro j
  induction j with
  | zero =>
    intro n w h hj
    have hgen := h.toBeGenerated_nonneg
    have hempty : contents w.queue = 0 := Multiset.card_eq_zero.mp (by omega)
    exact ⟨n, w, mainLoop_done ((hq.isQueueDone _).mpr hempty), h, hempty⟩
  | succ j ih =>
    intro n w h hj
    by_cases hempty : contents w.queue = 0
    · exact ⟨n, w, mainLoop_done ((hq.isQueueDone _).mpr hempty), h, hempty⟩
    · obtain ⟨n₁, w₁, hbody, h₁, hlt⟩ := h.mainLoopBody hq hu hS hempty
      obtain ⟨n', w', hrun, h', hempty'⟩ := ih h₁ (by push_cast at hj; omega)
      have hdone : isQueueDone w.queue = false := by
        rw [← Bool.not_eq_true, hq.isQueueDone]
        exact hempty
      exact ⟨n', w', (mainLoop_step hdone hbody).trans hrun, h', hempty'⟩

/-- **A whole run**: the first requests and the main loop, to the end of the queue. -/
lemma exists_run (hq : EventQueueLaw ℝ Q) (hu : UniformLaw ℝ G) {w₀ : World ℝ G Q}
    (hS : Ready w₀.demandStreamList w₀.demandStream) (hempty : contents w₀.queue = 0) :
    ∃ t w₁ j w, generateFirstRequests .STA_ORD w₀ = .ok t w₁ ∧
      mainLoop .STA_ORD j w₁ = .ok ⟨⟩ w ∧ contents w.queue = 0 ∧
      ∀ key ∈ w₀.demandStreamList, ∃ n : ℕ, Progress (w₀.demandStream key) n 0 ∧
        (w.demandStream key).randomGenerationContext.numberOfRequestsGeneratedSoFar = n := by
  obtain ⟨t, n₁, w₁, hfirst, hrun₁⟩ := Ready.running hq hS rfl (fun _ _ => rfl) hempty
  obtain ⟨n, w, hloop, hrun, hdone⟩ := hrun₁.mainLoop hq hu hS
    (2 * w₁.toBeGenerated + Multiset.card (contents w₁.queue)).toNat (Int.self_le_toNat _)
  refine ⟨t, w₁, _, w, hfirst, hloop, hdone, fun key hkey => ⟨n key, ?_, ?_⟩⟩
  · have hzero : w.pending key = 0 := by
      unfold World.pending
      rw [hdone]
      rfl
    have hprogress := hrun.progress key hkey
    rwa [hzero] at hprogress
  · rw [hrun.tracks.stream key hkey]
    rfl

/-- **Starvation**: the first requests and the main loop end with an empty queue, and every stream
has then generated all of its requests exactly when each of its requests but the last is dated
before its own preferred departure. -/
theorem generated_iff (hq : EventQueueLaw ℝ Q) (hu : UniformLaw ℝ G) {w₀ : World ℝ G Q}
    (hS : Ready w₀.demandStreamList w₀.demandStream) (hempty : contents w₀.queue = 0) :
    ∃ t w₁ j w, generateFirstRequests .STA_ORD w₀ = .ok t w₁ ∧
      mainLoop .STA_ORD j w₁ = .ok ⟨⟩ w ∧ contents w.queue = 0 ∧
      ((∀ key ∈ w₀.demandStreamList,
          (w.demandStream key).randomGenerationContext.numberOfRequestsGeneratedSoFar
            = (w₀.demandStream key).totalNumberOfRequestsToBeGenerated) ↔
        ∀ key ∈ w₀.demandStreamList, ∀ i : ℕ,
          (i : ℤ) + 1 < (w₀.demandStream key).totalNumberOfRequestsToBeGenerated →
            (w₀.demandStream key).Punctual i) := by
  obtain ⟨t, w₁, j, w, hfirst, hloop, hdone, hall⟩ := exists_run hq hu hS hempty
  refine ⟨t, w₁, j, w, hfirst, hloop, hdone, forall₂_congr fun key hkey => ?_⟩
  obtain ⟨n, hprogress, hn⟩ := hall key hkey
  rw [hn]
  exact hprogress.eq_iff

theorem generated_iff_sample :
    ∃ t w₁ j w, generateFirstRequests .STA_ORD (lastMinute 36000 2) = .ok t w₁ ∧
      mainLoop .STA_ORD j w₁ = .ok ⟨⟩ w ∧
      ∀ key ∈ (lastMinute 36000 2).demandStreamList,
        (w.demandStream key).randomGenerationContext.numberOfRequestsGeneratedSoFar
          = ((lastMinute 36000 2).demandStream key).totalNumberOfRequestsToBeGenerated := by
  obtain ⟨t, w₁, j, w, hfirst, hloop, -, hiff⟩ :=
    generated_iff SortedQueue.law Tape.uniformLaw (lastMinute_ready 36000 2) rfl
  exact ⟨t, w₁, j, w, hfirst, hloop, hiff.mpr fun key _ i _ => by simp⟩

/-- With a preferred departure at six o'clock the first of the two requests is dropped, and the
second is never generated. -/
theorem starved :
    ∃ t w₁ j w, generateFirstRequests .STA_ORD (lastMinute 21600 2) = .ok t w₁ ∧
      mainLoop .STA_ORD j w₁ = .ok ⟨⟩ w ∧ contents w.queue = 0 ∧
      (w.demandStream DemandStream.sampleKey).randomGenerationContext.numberOfRequestsGeneratedSoFar
        ≠ 2 := by
  obtain ⟨t, w₁, j, w, hfirst, hloop, hdone, hall⟩ :=
    exists_run SortedQueue.law Tape.uniformLaw (lastMinute_ready 21600 2) rfl
  refine ⟨t, w₁, j, w, hfirst, hloop, hdone, ?_⟩
  obtain ⟨n, hprogress, hn⟩ := hall DemandStream.sampleKey (List.mem_singleton_self _)
  have hiff := hprogress.eq_iff
  rw [lastMinute_total] at hiff
  rw [hn]
  intro h
  have hpunctual := hiff.mp h 0 (by norm_num)
  simp at hpunctual

end Real

end Trademgen
