import Trademgen.CallSteps
import Trademgen.MainLoop

/-!
The batch: runs of the demand generation, one after the other, with a reset in between.

The streams are not made anew from one run to the next. Whatever a run left of them, the reset
leaves streams with the same key, characteristics and distribution, and an empty queue: every run
merges what its own streams have to generate.
-/

set_option linter.unusedSectionVars false

namespace Trademgen

open Faulting EventQueue DemandManager DemandStream

/-- What a reset of the event manager makes of its queue and of its actual total. -/
class EventManagerReset (Q : Type) where
  resetQueue : Q → Q
  resetTotal : Q → ℤ → ℤ

open EventManagerReset

instance {K : Type} : EventManagerReset (SortedQueue K) where
  resetQueue _ := .empty
  resetTotal _ _ := 0

/-- What is assumed of the reset: it leaves no event in the queue. -/
def EventManagerResetLaw (K Q : Type) [EventQueue K Q] [EventManagerReset Q] : Prop :=
  ∀ q : Q, contents (resetQueue q) = 0

lemma SortedQueue.resetLaw {K : Type} : EventManagerResetLaw K (SortedQueue K) := fun _ => rfl

variable {K G Q : Type} [Field K] [LinearOrder K] [FloorRing K] [Libm K] [RandomGeneration K G]
  [EventQueue K Q] [EventManagerReset Q] {m : DemandGenerationMethod}

namespace DemandManager

/-! ### Reset and runs -/

def resetStream (w : World K G Q) (key : DemandStreamKey) : World K G Q :=
  let (s, g) := (w.demandStream key).reset w.generator
  { updateStream key s w with generator := g }

/-- The streams are reset in the order of their list, and then the event manager. -/
def reset (w : World K G Q) : World K G Q :=
  let w' := w.demandStreamList.foldl resetStream w
  { w' with queue := resetQueue w'.queue, actualTotal := resetTotal w'.queue w'.actualTotal }

/-- A run of the batch, up to a number of iterations of its main loop. -/
def generateRun (iDemandGenerationMethod : DemandGenerationMethod) (n : ℕ) :
    EStateM Fault (World K G Q) ℤ := do
  let lActualNbOfEventsToBeGenerated ← generateFirstRequests iDemandGenerationMethod
  mainLoop iDemandGenerationMethod n
  modify reset
  return lActualNbOfEventsToBeGenerated

/-- The runs of the batch, with what the statistics accumulator is given. -/
def generateDemand (iDemandGenerationMethod : DemandGenerationMethod) (n : ℕ) :
    ℕ → EStateM Fault (World K G Q) (List ℤ)
  | 0 => return []
  | iNbOfRuns + 1 => do
    let lActualNbOfEventsToBeGenerated ← generateRun iDemandGenerationMethod n
    let lStatAccumulator ← generateDemand iDemandGenerationMethod n iNbOfRuns
    return lActualNbOfEventsToBeGenerated :: lStatAccumulator

end DemandManager

/-! ### What a reset leaves -/

/-- The streams are made of the same row. -/
structure DemandStream.SameRow (s s' : DemandStream K G) : Prop where
  key : s'.key = s.key
  characteristics : s'.demandCharacteristics = s.demandCharacteristics
  distribution : s'.demandDistribution = s.demandDistribution

namespace DemandStream.SameRow

lemma refl (s : DemandStream K G) : SameRow s s := ⟨rfl, rfl, rfl⟩

lemma trans {s s' s'' : DemandStream K G} (h : SameRow s s') (h' : SameRow s' s'') :
    SameRow s s'' :=
  ⟨h'.key.trans h.key, h'.characteristics.trans h.characteristics,
    h'.distribution.trans h.distribution⟩

lemma of_sameBase {s s' : DemandStream K G} (h : SameBase s s') : SameRow s s' :=
  ⟨h.key, h.characteristics, h.distribution⟩

lemma reset (s : DemandStream K G) (g : G) : SameRow s (s.reset g).1 := ⟨rfl, rfl, rfl⟩

end DemandStream.SameRow

/-- The worlds have the same streams, up to what was generated of them. -/
structure SameStreams (w w' : World K G Q) : Prop where
  list : w'.demandStreamList = w.demandStreamList
  row : ∀ key, SameRow (w.demandStream key) (w'.demandStream key)
  expected : w'.expectedTotals = w.expectedTotals

variable {w w' w'' : World K G Q}

lemma SameStreams.refl (w : World K G Q) : SameStreams w w := ⟨rfl, fun _ => .refl _, rfl⟩

lemma SameStreams.trans (h : SameStreams w w') (h' : SameStreams w' w'') : SameStreams w w'' :=
  ⟨h'.list.trans h.list, fun key => (h.row key).trans (h'.row key), h'.expected.trans h.expected⟩

lemma sameStreams_updateStream {key : DemandStreamKey} {s : DemandStream K G}
    (h : SameRow (w.demandStream key) s) : SameStreams w (updateStream key s w) := by
  refine ⟨rfl, fun key' => ?_, rfl⟩
  by_cases heq : key' = key
  · rw [heq, updateStream_self]
    exact h
  · rw [updateStream_of_ne heq]
    exact .refl _

lemma sameStreams_next (key : DemandStreamKey) (w : World K G Q) :
    SameStreams w (stateOf (DemandManager.generateNextRequest key m w)) := by
  have hbase := sameBase_next w.generator m (w.demandStream key)
  rw [DemandManager.generateNextRequest_eq]
  cases hr : (w.demandStream key).generateNextRequest w.generator m with
  | error e s =>
    rw [hr, stateOf_error] at hbase
    exact sameStreams_updateStream (.of_sameBase hbase)
  | ok p s =>
    obtain ⟨r, g⟩ := p
    rw [hr, stateOf_ok] at hbase
    obtain ⟨-, hrow, -⟩ := sameStreams_updateStream (w := w) (.of_sameBase hbase)
    rw [stateOf_ok]
    refine ⟨afterRequest_demandStreamList, fun key' => ?_, ?_⟩
    · rw [afterRequest_demandStream]
      exact hrow key'
    · unfold afterRequest dispatch
      split_ifs <;> rfl

lemma stepwise_sameStreams (m : DemandGenerationMethod) :
    Stepwise m fun (w : World K G Q) _ w' => SameStreams w w' where
  refl := .refl
  trans := .trans
  first _ _ := sameStreams_updateStream ⟨rfl, rfl, rfl⟩
  next := sameStreams_next
  pop _ := ⟨rfl, fun _ => .refl _, rfl⟩
  total _ _ := ⟨rfl, fun _ => .refl _, rfl⟩

lemma sameStreams_resetStream (w : World K G Q) (key : DemandStreamKey) :
    SameStreams w (resetStream w key) := by
  obtain ⟨hlist, hrow, hexpected⟩ :=
    sameStreams_updateStream (w := w) (.reset (w.demandStream key) w.generator)
  exact ⟨hlist, hrow, hexpected⟩

lemma sameStreams_foldl (ks : List DemandStreamKey) :
    ∀ w : World K G Q, SameStreams w (ks.foldl resetStream w) := by
  induction ks with
  | nil => exact .refl
  | cons key ks ih => exact fun w => (sameStreams_resetStream w key).trans (ih _)

lemma sameStreams_reset (w : World K G Q) : SameStreams w (DemandManager.reset w) := by
  obtain ⟨hlist, hrow, hexpected⟩ := sameStreams_foldl w.demandStreamList w
  exact ⟨hlist, hrow, hexpected⟩

/-- A stream started stays so when other ones are reset, and when it is. -/
lemma started_foldl {key : DemandStreamKey} {ks : List DemandStreamKey} :
    ∀ {w : World K G Q}, key ∈ ks ∨ (w.demandStream key).Started →
      ((ks.foldl resetStream w).demandStream key).Started := by
  induction ks with
  | nil => simp
  | cons k ks ih =>
    intro w h
    refine ih ?_
    by_cases hk : k = key
    · subst hk
      refine .inr ?_
      rw [resetStream, updateStream_self]
      exact .reset _ _
    · rcases h with h | h
      · exact .inl ((List.mem_cons.mp h).resolve_left (Ne.symm hk))
      · refine .inr ?_
        rw [resetStream, updateStream_of_ne (Ne.symm hk)]
        exact h

/-- **The reset** starts every stream. -/
lemma started_reset {key : DemandStreamKey} (h : key ∈ w.demandStreamList) :
    ((DemandManager.reset w).demandStream key).Started :=
  started_foldl (.inl h)

/-! ### Runs -/

lemma exists_popEvent (h : mainLoopBody m w = .ok ⟨⟩ w') :
    ∃ e q, popEvent w.queue = some (e, q) := by
  cases hpop : popEvent w.queue with
  | none =>
    simp only [mainLoopBody, get_bind, hpop] at h
    cases h
  | some p => exact ⟨p.1, p.2, rfl⟩

/-- A main loop that ends does the same in any greater number of iterations. -/
lemma mainLoop_mono : ∀ {j n : ℕ} {w w' : World K G Q}, j ≤ n → mainLoop m j w = .ok ⟨⟩ w' →
    mainLoop m n w = .ok ⟨⟩ w' ∧ poppedEvents m n w = poppedEvents m j w := by
  intro j
  induction j with
  | zero =>
    intro n w w' _ h
    cases h
  | succ j ih =>
    intro n w w' hjn h
    obtain ⟨n, rfl⟩ : ∃ k, n = k + 1 := ⟨n - 1, by omega⟩
    cases hdone : isQueueDone w.queue with
    | true =>
      rw [mainLoop_done hdone] at h ⊢
      exact ⟨h, by rw [poppedEvents_done hdone, poppedEvents_done hdone]⟩
    | false =>
      have hloop : (mainLoopBody m >>= fun _ => mainLoop m j) w = .ok ⟨⟩ w' := by
        simpa only [mainLoop, get_bind, hdone, Bool.false_eq_true, if_false] using h
      obtain ⟨⟨⟩, w₁, hbody, hrest⟩ := bind_eq_ok.mp hloop
      obtain ⟨e, q, hpop⟩ := exists_popEvent hbody
      obtain ⟨hmain, hpopped⟩ := ih (by omega : j ≤ n) hrest
      rw [mainLoop_step hdone hbody, poppedEvents_step hdone hpop hbody,
        poppedEvents_step hdone hpop hbody, hpopped]
      exact ⟨hmain, rfl⟩

/-- The events popped in a run of the batch. -/
def runEvents (m : DemandGenerationMethod) (n : ℕ) (w : World K G Q) : List (EventStruct K) :=
  match generateFirstRequests m w with
  | .ok _ w' => poppedEvents m n w'
  | .error _ _ => []

/-- The number of requests that the streams drew. -/
def World.announced (w : World K G Q) : ℤ :=
  (w.demandStreamList.map fun key => (w.demandStream key).totalNumberOfRequestsToBeGenerated).sum

/-- What a run starts with: streams started under their keys, that have a list of requests to
generate however often they are reset, and an empty queue. -/
structure Batchable (m : DemandGenerationMethod) (w : World K G Q) : Prop where
  nodup : w.demandStreamList.Nodup
  key : ∀ key ∈ w.demandStreamList, (w.demandStream key).key = key
  started : ∀ key ∈ w.demandStreamList, (w.demandStream key).Started
  emits : ∀ key ∈ w.demandStreamList, ∀ s, SameRow (w.demandStream key) s → s.Started →
    ∃ rs, Emits m s rs
  empty : contents w.queue = 0

/-- The events are a merge of what the streams would generate alone, up to the first request that
comes too late. -/
structure Merged (m : DemandGenerationMethod) (w : World K G Q) (es : List (EventStruct K)) :
    Prop where
  owned : ∀ e ∈ es, e.bookingRequest.generatorKey ∈ w.demandStreamList
  leading : ∀ key ∈ w.demandStreamList, ∃ rs, Emits m (w.demandStream key) rs ∧
    requestsOf key es = rs.takeWhile isBeforeDeparture

/-- **The reset** makes the streams ready for the next run. -/
lemma Batchable.reset (hr : EventManagerResetLaw K Q) (h : Batchable m w) (hw : SameStreams w w') :
    Batchable m (DemandManager.reset w') := by
  have hsame := hw.trans (sameStreams_reset w')
  refine ⟨hsame.list ▸ h.nodup, fun key hkey => ?_, fun key hkey => ?_, fun key hkey s hs => ?_,
    hr _⟩
  · rw [(hsame.row key).key]
    exact h.key key (hsame.list ▸ hkey)
  · exact started_reset ((sameStreams_reset w').list ▸ hkey)
  · exact h.emits key (hsame.list ▸ hkey) s ((hsame.row key).trans hs)

lemma Batchable.exists_merging (h : Batchable m w) : ∃ R, Merging m w R := by
  classical
  have hemits (key : DemandStreamKey) (hkey : key ∈ w.demandStreamList) :
      ∃ rs, Emits m (w.demandStream key) rs :=
    h.emits key hkey _ (.refl _) (h.started key hkey)
  refine ⟨fun key => if hkey : key ∈ w.demandStreamList then (hemits key hkey).choose else [],
    h.nodup, h.key, h.started, fun key hkey => ?_, h.empty⟩
  rw [dif_pos hkey]
  exact (hemits key hkey).choose_spec

lemma generateRun_ok {n : ℕ} {total : ℤ} {w₁ : World K G Q}
    (hfirst : generateFirstRequests m w = .ok total w₁) (hloop : mainLoop m n w₁ = .ok ⟨⟩ w') :
    generateRun m n w = .ok total (DemandManager.reset w') ∧
      runEvents m n w = poppedEvents m n w₁ := by
  refine ⟨?_, by rw [runEvents, hfirst]⟩
  rw [generateRun, bind_ok hfirst, bind_ok hloop]
  rfl

lemma generateFirstRequests_announced {total : ℤ}
    (h : generateFirstRequests m w = .ok total w') : total = w.announced := by
  unfold generateFirstRequests at h
  rw [get_bind] at h
  obtain ⟨t, w₁, hrun, hset⟩ := bind_eq_ok.mp h
  cases hset
  rw [iterateStreams_total hrun, zero_add]
  rfl

lemma generateDemand_ok {n k : ℕ} {total : ℤ} {counts : List ℤ}
    (h : generateRun m n w = .ok total w')
    (hrest : DemandManager.generateDemand m n k w' = .ok counts w'') :
    DemandManager.generateDemand m n (k + 1) w = .ok (total :: counts) w'' := by
  rw [DemandManager.generateDemand, bind_ok h, bind_ok hrest]
  rfl

lemma stateOf_generateDemand {n : ℕ} {total : ℤ} (h : generateRun m n w = .ok total w') (k : ℕ) :
    stateOf (DemandManager.generateDemand m n (k + 1) w)
      = stateOf (DemandManager.generateDemand m n k w') := by
  rw [DemandManager.generateDemand, bind_ok h]
  cases hrest : DemandManager.generateDemand m n k w' with
  | ok counts w'' =>
    rw [bind_ok hrest]
    rfl
  | error e w'' =>
    rw [bind_error hrest]

/-! ### The number recorded -/

variable [IsStrictOrderedRing K]

lemma length_eq_sum {L : List DemandStreamKey} {es : List (EventStruct K)}
    (h : ∀ e ∈ es, e.bookingRequest.generatorKey ∈ L) :
    es.length = ∑ key ∈ L.toFinset, (requestsOf key es).length := by
  induction es with
  | nil => simp [requestsOf]
  | cons e es ih =>
    obtain ⟨he, hes⟩ := List.forall_mem_cons.mp h
    have hcons (key : DemandStreamKey) : (requestsOf key (e :: es)).length
        = (requestsOf key es).length + if e.bookingRequest.generatorKey = key then 1 else 0 := by
      unfold requestsOf
      rw [List.map_cons, List.filter_cons]
      by_cases heq : e.bookingRequest.generatorKey = key
      · simp [heq]
      · simp [heq]
    rw [List.length_cons, ih hes, Finset.sum_congr rfl fun key _ => hcons key,
      Finset.sum_add_distrib, Finset.sum_ite_eq, if_pos (List.mem_toFinset.mpr he)]

/-- All of a stream's requests are taken exactly when all of them are punctual. -/
lemma DemandStream.Sound.leading_iff {s : DemandStream K G} (h : s.Sound) (hs : s.Fresh)
    {rs : List (BookingRequestStruct K)} (hrs : Emits .STA_ORD s rs) :
    (rs.takeWhile isBeforeDeparture).length ≤ s.totalNumberOfRequestsToBeGenerated.toNat ∧
      ((rs.takeWhile isBeforeDeparture).length = s.totalNumberOfRequestsToBeGenerated.toNat ↔
        ∀ k : ℕ, (k : ℤ) < s.totalNumberOfRequestsToBeGenerated → s.Punctual k) := by
  obtain ⟨rs', hrs', hlength, hmem⟩ := h.emits hs
  cases hrs.unique hrs'
  have hlead := List.takeWhile_prefix (l := rs) isBeforeDeparture
  rw [← hlength]
  refine ⟨hlead.length_le, fun heq k hk => ?_, fun hall => ?_⟩
  · have hself := hlead.eq_of_length heq
    have hlt : k < rs.length := by omega
    rw [List.takeWhile_eq_self_iff] at hself
    exact (isBeforeDeparture_iff (hmem k _ (List.getElem?_eq_getElem hlt))).mp
      (hself _ (List.getElem_mem hlt))
  · rw [List.takeWhile_eq_self_iff.mpr]
    intro r hr
    obtain ⟨k, hk⟩ := List.mem_iff_getElem?.mp hr
    have hlt := (List.getElem?_eq_some_iff.mp hk).1
    exact (isBeforeDeparture_iff (hmem k r hk)).mpr (hall k (by omega))

/-- **The number recorded** for a run is the number of its events exactly when every request of the
streams is dated before the departure it prefers. -/
lemma Merged.recorded_iff (h : Batchable .STA_ORD w) {es : List (EventStruct K)}
    (hmerged : Merged .STA_ORD w es)
    (hsound : ∀ key ∈ w.demandStreamList, (w.demandStream key).Sound)
    (hnonneg : ∀ key ∈ w.demandStreamList,
      0 ≤ (w.demandStream key).totalNumberOfRequestsToBeGenerated) :
    w.announced = es.length ↔ ∀ key ∈ w.demandStreamList, ∀ k : ℕ,
      (k : ℤ) < (w.demandStream key).totalNumberOfRequestsToBeGenerated →
        (w.demandStream key).Punctual k := by
  have htotal : w.announced = (∑ key ∈ w.demandStreamList.toFinset,
      (w.demandStream key).totalNumberOfRequestsToBeGenerated.toNat : ℕ) := by
    rw [Nat.cast_sum, List.sum_toFinset _ h.nodup]
    refine congrArg List.sum (List.map_congr_left fun key hkey => ?_)
    exact (Int.toNat_of_nonneg (hnonneg key hkey)).symm
  have hstream (key : DemandStreamKey) (hkey : key ∈ w.demandStreamList.toFinset) :
      (requestsOf key es).length ≤ (w.demandStream key).totalNumberOfRequestsToBeGenerated.toNat ∧
        ((requestsOf key es).length
            = (w.demandStream key).totalNumberOfRequestsToBeGenerated.toNat ↔
          ∀ k : ℕ, (k : ℤ) < (w.demandStream key).totalNumberOfRequestsToBeGenerated →
            (w.demandStream key).Punctual k) := by
    have hkey' := List.mem_toFinset.mp hkey
    obtain ⟨rs, hrs, heq⟩ := hmerged.leading key hkey'
    rw [heq]
    exact (hsound key hkey').leading_iff (h.started key hkey').fresh hrs
  rw [htotal, length_eq_sum hmerged.owned, Nat.cast_inj, eq_comm,
    Finset.sum_eq_sum_iff_of_le fun key hkey => (hstream key hkey).1]
  refine ⟨fun hall key hkey => ?_, fun hall key hkey => ?_⟩
  · have hmem := List.mem_toFinset.mpr hkey
    exact (hstream key hmem).2.mp (hall key hmem)
  · exact (hstream key hkey).2.mpr (hall key (List.mem_toFinset.mp hkey))

/-! ### Order statistics -/

/-- No draw from the tables of a stream fails, whatever the variates. -/
structure Fit (G : Type) [RandomGeneration K G] (d : DemandCharacteristics K) : Prop where
  pattern : 0 < d.arrivalPattern.size
  frat5 : 0 < d.frat5Pattern.size
  draws : ∀ g : G, Nonempty (Draws d g)

lemma Fit.sound {s : DemandStream K G} (h : Fit G s.demandCharacteristics) : s.Sound :=
  ⟨h.pattern, h.frat5, fun _ _ => h.draws _⟩

/-- The streams of a batch: started under their keys, no draw of them fails. -/
structure Stocked (w : World K G Q) : Prop where
  nodup : w.demandStreamList.Nodup
  key : ∀ key ∈ w.demandStreamList, (w.demandStream key).key = key
  started : ∀ key ∈ w.demandStreamList, (w.demandStream key).Started
  fit : ∀ key ∈ w.demandStreamList, Fit G (w.demandStream key).demandCharacteristics
  empty : contents w.queue = 0

lemma Stocked.batchable (h : Stocked w) : Batchable .STA_ORD w := by
  refine ⟨h.nodup, h.key, h.started, fun key hkey s hrow hs => ?_, h.empty⟩
  have hfit := h.fit key hkey
  rw [← hrow.characteristics] at hfit
  obtain ⟨rs, hrs, -⟩ := hfit.sound.emits hs.fresh
  exact ⟨rs, hrs⟩

/-! ### The batch -/

section Real

variable {G Q : Type} [RandomGeneration ℝ G] [EventQueue ℝ Q] [EventManagerReset Q]
  {m : DemandGenerationMethod} {w : World ℝ G Q}

/-- **A run** ends, whatever the number of iterations above some. -/
lemma Batchable.run (hq : EventQueueLaw ℝ Q) (hr : EventManagerResetLaw ℝ Q) (hu : UniformLaw ℝ G)
    (he : ExponentialLaw ℝ G) (h : Batchable m w) :
    ∃ j w', SameStreams w w' ∧ Batchable m w' ∧ ∀ n ≥ j,
      generateRun m n w = .ok w.announced w' ∧ Merged m w (runEvents m n w) := by
  obtain ⟨R, hmerging⟩ := h.exists_merging
  obtain ⟨total, w₁, j, w₂, hfirst, hloop, -, howned, hleading⟩ :=
    hmerging.run hq fun key hkey =>
      (hmerging.emits key hkey).pairwise hu he (hmerging.started key hkey).fresh
  have hsame₁ := (stepwise_sameStreams m).generateFirstRequests w
  rw [hfirst, stateOf_ok] at hsame₁
  have hsame₂ := (stepwise_sameStreams m).mainLoop hq j w₁
  rw [hloop, stateOf_ok] at hsame₂
  have hsame := hsame₁.trans hsame₂
  refine ⟨j, _, hsame.trans (sameStreams_reset w₂), h.reset hr hsame, fun n hn => ?_⟩
  obtain ⟨hmain, hpopped⟩ := mainLoop_mono hn hloop
  obtain ⟨hrun, hevents⟩ := generateRun_ok hfirst hmain
  rw [hrun, hevents, hpopped, generateFirstRequests_announced hfirst]
  exact ⟨rfl, howned, fun key hkey => ⟨R key, hmerging.emits key hkey, hleading key hkey⟩⟩

/-- The runs of the batch, each of them described by the world it starts with. -/
lemma Batchable.generateDemand (hq : EventQueueLaw ℝ Q) (hr : EventManagerResetLaw ℝ Q)
    (hu : UniformLaw ℝ G) (he : ExponentialLaw ℝ G) (iNbOfRuns : ℕ) :
    ∀ {w : World ℝ G Q}, Batchable m w → ∃ j, ∀ n ≥ j, ∃ counts w',
      DemandManager.generateDemand m n iNbOfRuns w = .ok counts w' ∧ SameStreams w w' ∧
      Batchable m w' ∧ counts.length = iNbOfRuns ∧ ∀ i < iNbOfRuns, ∃ v,
        stateOf (DemandManager.generateDemand m n i w) = v ∧ SameStreams w v ∧ Batchable m v ∧
        counts[i]? = some v.announced ∧ Merged m v (runEvents m n v) := by
  induction iNbOfRuns with
  | zero => exact fun {w} h => ⟨0, fun n _ => ⟨[], w, rfl, .refl w, h, rfl, by simp⟩⟩
  | succ k ih =>
    intro w h
    obtain ⟨j, w₁, hsame, h₁, hrun⟩ := h.run hq hr hu he
    obtain ⟨j', hrest⟩ := ih h₁
    refine ⟨max j j', fun n hn => ?_⟩
    obtain ⟨hgen, hmerged⟩ := hrun n ((le_max_left ..).trans hn)
    obtain ⟨counts, w', hdemand, hsame', h', hlength, hruns⟩ :=
      hrest n ((le_max_right ..).trans hn)
    refine ⟨w.announced :: counts, w', ?_, hsame.trans hsame', h',
      by rw [List.length_cons, hlength], ?_⟩
    · exact generateDemand_ok hgen hdemand
    · intro i hi
      cases i with
      | zero => exact ⟨w, rfl, .refl w, h, rfl, hmerged⟩
      | succ i =>
        obtain ⟨v, hv, hsame', hbatch, hcount, hmerge⟩ := hruns i (by omega)
        refine ⟨v, ?_, hsame.trans hsame', hbatch, hcount, hmerge⟩
        rw [stateOf_generateDemand hgen, hv]

lemma Stocked.of_batchable {w' : World ℝ G Q} (h : Stocked w) (hsame : SameStreams w w')
    (h' : Batchable .STA_ORD w') : Stocked w' := by
  refine ⟨h'.nodup, h'.key, h'.started, fun key hkey => ?_, h'.empty⟩
  rw [(hsame.row key).characteristics]
  exact h.fit key (hsame.list ▸ hkey)

/-- **The batch**: with order statistics and any number of runs, every run ends, and the streams are
as ready after it as before. The number recorded for a run is the one its streams drew, and its
events are a merge of what the streams generate: the number recorded is theirs exactly when every
request is dated before the departure it prefers, if no stream drew a negative number. -/
theorem generateDemand_runs (hq : EventQueueLaw ℝ Q) (hr : EventManagerResetLaw ℝ Q)
    (hu : UniformLaw ℝ G) (he : ExponentialLaw ℝ G) {w : World ℝ G Q} (h : Stocked w)
    (iNbOfRuns : ℕ) :
    ∃ j, ∀ n ≥ j, ∃ counts w',
      DemandManager.generateDemand .STA_ORD n iNbOfRuns w = .ok counts w' ∧ Stocked w' ∧
      counts.length = iNbOfRuns ∧ ∀ i < iNbOfRuns, ∃ v,
        stateOf (DemandManager.generateDemand .STA_ORD n i w) = v ∧ SameStreams w v ∧ Stocked v ∧
        counts[i]? = some v.announced ∧ Merged .STA_ORD v (runEvents .STA_ORD n v) ∧
        ((∀ key ∈ v.demandStreamList,
            0 ≤ (v.demandStream key).totalNumberOfRequestsToBeGenerated) →
          (v.announced = (runEvents .STA_ORD n v).length ↔ ∀ key ∈ v.demandStreamList, ∀ k : ℕ,
            (k : ℤ) < (v.demandStream key).totalNumberOfRequestsToBeGenerated →
              (v.demandStream key).Punctual k)) := by
  obtain ⟨j, hruns⟩ := h.batchable.generateDemand hq hr hu he iNbOfRuns
  refine ⟨j, fun n hn => ?_⟩
  obtain ⟨counts, w', hdemand, hsame, hbatch, hlength, hall⟩ := hruns n hn
  refine ⟨counts, w', hdemand, h.of_batchable hsame hbatch, hlength, fun i hi => ?_⟩
  obtain ⟨v, hv, hsame, hbatch, hcount, hmerged⟩ := hall i hi
  have hstocked := h.of_batchable hsame hbatch
  exact ⟨v, hv, hsame, hstocked, hcount, hmerged, fun hnonneg =>
    hmerged.recorded_iff hbatch (fun key hkey => (hstocked.fit key hkey).sound) hnonneg⟩

/-- The stream of two requests, both punctual: three runs record two requests each. -/
theorem generateDemand_runs_sample :
    ∃ n counts w', DemandManager.generateDemand .STA_ORD n 3 (lastMinute 36000 2) = .ok counts w' ∧
      counts.length = 3 := by
  have hready := lastMinute_ready 36000 2
  have hstocked : Stocked (lastMinute 36000 2) := by
    refine ⟨hready.nodup, hready.key, hready.started, fun key hkey => ?_, rfl⟩
    have hsound := hready.sound key hkey
    exact ⟨hsound.pattern, hsound.frat5, fun g => ⟨sampleDraws Tape.uniformLaw g⟩⟩
  obtain ⟨j, hruns⟩ := generateDemand_runs SortedQueue.law SortedQueue.resetLaw Tape.uniformLaw
    Tape.positiveExponentialLaw.nonneg hstocked 3
  obtain ⟨counts, w', hdemand, -, hlength, -⟩ := hruns j le_rfl
  exact ⟨j, counts, w', hdemand, hlength⟩

end Real

end Trademgen
