import Trademgen.ConsecutiveRequests

/-!
The request times of a stream, over any sequence of service calls.

Order statistics only move forward. A Poisson stream does too, unless a call for the first requests
sets its first-request flag while it is half-way: its walk then starts again at the lower bound of
the pattern.
-/

set_option linter.unusedSectionVars false

namespace Trademgen

open Faulting OrderedMap DemandStream DemandManager

variable {G : Type} [RandomGeneration ℝ G] {m : DemandGenerationMethod}

namespace DemandStream

/-! ### One stream -/

/-- A stream that is half-way through its walk can be sent back to the lower bound of its pattern
without generating a request before the millisecond of its last one. -/
def Restarts : DemandGenerationMethod → DemandStream ℝ G → Prop
  | .STA_ORD, _ => True
  | .POI_PRO, s => s.stillHavingRequests = true → s.firstDateTimeRequest = false →
      ∀ x, s.demandCharacteristics.arrivalPattern.getValue 0 = .ok x →
        ClearTo (days (milliseconds s.dateTimeLastRequest)) (s.setBoolFirstDateTimeRequest true) x

/-- The stream stands at the last of the times it generated. -/
def Trail : DemandGenerationMethod → DemandStream ℝ G → List DateTime → Prop
  | .STA_ORD, s, ts => Partial s ∧ ∀ t ∈ ts.getLast?, Left t .STA_ORD s
  | .POI_PRO, s, ts => s.stillHavingRequests = true →
      s.firstDateTimeRequest = true ∧ ts = [] ∨ s.firstDateTimeRequest = false ∧
        ts.getLast? = some (s.departureDateTime + convertFloatIntoDuration s.dateTimeLastRequest)

lemma Trail.of_fresh {s : DemandStream ℝ G} (h : Fresh s) : Trail m s [] := by
  cases m with
  | STA_ORD => exact ⟨Kept.of_fresh (m := .STA_ORD) h, by simp⟩
  | POI_PRO => exact fun _ => .inl ⟨h.first, rfl⟩

/-- An offset is no earlier than another when it is none before its millisecond. -/
lemma time_le_iff (s : DemandStream ℝ G) {d d' : ℝ} :
    s.departureDateTime + convertFloatIntoDuration d
        ≤ s.departureDateTime + convertFloatIntoDuration d'
      ↔ days (milliseconds d) ≤ d' := by
  have hadd : s.departureDateTime + convertFloatIntoDuration d + DateTime.millisec 0
      ≤ s.departureDateTime + convertFloatIntoDuration d' ↔ days (milliseconds d + 0) ≤ d' :=
    convertFloatIntoDuration_add_le _
  have hzero : DateTime.millisec 0 = 0 := rfl
  rwa [hzero, add_zero, add_zero] at hadd

/-- A request of the order statistics is no earlier than the last one. -/
lemma Left.le (hu : UniformLaw ℝ G) {s s' : DemandStream ℝ G} {t : DateTime}
    (h : Left t .STA_ORD s) {g g' : G} {r : BookingRequestStruct ℝ}
    (hr : generateNextRequest g .STA_ORD s = .ok (r, g') s') : t ≤ r.requestDateTime := by
  obtain ⟨s₁, g₁, ht, -⟩ := generateNextRequest_time hr
  obtain ⟨d', hd', htime, -⟩ := generateTimeOfRequestStatisticsOrder_ok ht
  cases h with
  | statisticsOrder hpart hd hleft =>
    obtain ⟨h0, -⟩ := nextProbability_mem hu hpart
    have hdd := s.demandCharacteristics.arrivalPattern.getValue_mono
      (s.demandCharacteristics.arrivalPattern.size_pos hd) h0.le hd hd'
    rw [hleft, htime]
    exact Int.add_le_add_left (convertFloatIntoDuration_mono hdd) _

/-- A call on a Poisson stream leaves its trail, and is no earlier than an offset when it is clear
to the millisecond of it. -/
lemma trail_poissonProcess (he : ExponentialLaw ℝ G) {s s' : DemandStream ℝ G} {g g' : G}
    {r : BookingRequestStruct ℝ} (hr : generateNextRequest g .POI_PRO s = .ok (r, g') s')
    (ts : List DateTime) :
    Trail .POI_PRO s' (ts ++ [r.requestDateTime]) ∧ ∃ x, s.position = .ok x ∧
      ∀ d : ℝ, s.departureDateTime + convertFloatIntoDuration d ≤ r.requestDateTime ↔
        ClearTo (days (milliseconds d)) s x := by
  have hbase := sameBase_next g .POI_PRO s
  rw [hr, stateOf_ok] at hbase
  obtain ⟨s₁, g₁, ht, rfl⟩ := generateNextRequest_time hr
  obtain ⟨vs, hcall⟩ := generateTimeOfRequestPoissonProcess_eq_ok.mp ht
  obtain ⟨x, hx⟩ := hcall.exists_position
  obtain ⟨o, htime, hland, -, hclear⟩ := hcall.lands he hx
  refine ⟨fun hstill => ?_, x, hx, fun d => ?_⟩
  · cases hland with
    | stopped still first last => exact absurd (still.symm.trans hstill) (by simp)
    | accepted o still first last =>
      refine .inr ⟨first, ?_⟩
      rw [List.getLast?_append, hbase.departureDateTime, htime, ← last]
      rfl
  · rw [htime, time_le_iff, hclear]

/-- **A guarded call** on a stream leaves its trail, and does not go back. -/
lemma Trail.next (hu : UniformLaw ℝ G) (he : ExponentialLaw ℝ G) {s s' : DemandStream ℝ G}
    {ts : List DateTime} (h : Trail m s ts) (hstill : s.stillHavingRequestsToBeGenerated m = true)
    {g g' : G} {r : BookingRequestStruct ℝ} (hr : generateNextRequest g m s = .ok (r, g') s') :
    Trail m s' (ts ++ [r.requestDateTime]) ∧ ∀ t ∈ ts.getLast?, t ≤ r.requestDateTime := by
  cases m with
  | STA_ORD =>
    obtain ⟨hpart, hlast⟩ := h
    have hleft := Left.of_next (m := .STA_ORD) hu he hpart hr
    have hpart' := Kept.next (m := .STA_ORD) hu hpart g
    rw [hr, stateOf_ok] at hpart'
    refine ⟨⟨hpart', by simpa using hleft⟩, fun t ht => (hlast t ht).le hu hr⟩
  | POI_PRO =>
    obtain ⟨htrail, x, hx, hclear⟩ := trail_poissonProcess he hr ts
    refine ⟨htrail, ?_⟩
    rcases h hstill with ⟨-, rfl⟩ | ⟨hfirst, hlast⟩
    · simp
    · rw [hlast]
      rintro t ⟨⟩
      rw [position_of_first hfirst] at hx
      cases hx
      exact (hclear _).mpr (.past (le_milliseconds.mp le_rfl))

/-- **A guarded call on a stream whose flag was set** leaves its trail, and does not go back exactly
when the stream restarts. -/
lemma Trail.restart (hu : UniformLaw ℝ G) (he : ExponentialLaw ℝ G) {s s' : DemandStream ℝ G}
    {ts : List DateTime} (h : Trail m s ts) (hstill : s.stillHavingRequestsToBeGenerated m = true)
    {g g' : G} {r : BookingRequestStruct ℝ}
    (hr : generateNextRequest g m (s.setBoolFirstDateTimeRequest true) = .ok (r, g') s') :
    Trail m s' (ts ++ [r.requestDateTime]) ∧
      ((∀ t ∈ ts.getLast?, t ≤ r.requestDateTime) ↔ Restarts m s) := by
  cases m with
  | STA_ORD =>
    have hflag : Trail .STA_ORD (s.setBoolFirstDateTimeRequest true) ts :=
      ⟨h.1, fun t ht => by
        cases h.2 t ht with
        | statisticsOrder hpart hd hleft => exact .statisticsOrder hpart hd hleft⟩
    obtain ⟨htrail, hle⟩ := hflag.next hu he hstill hr
    exact ⟨htrail, fun _ => trivial, fun _ => hle⟩
  | POI_PRO =>
    obtain ⟨htrail, x, hx, hclear⟩ := trail_poissonProcess he hr ts
    refine ⟨htrail, ?_⟩
    rw [position_first (s := s.setBoolFirstDateTimeRequest true) rfl] at hx
    rcases h hstill with ⟨hfirst, rfl⟩ | ⟨hfirst, hlast⟩
    · refine ⟨fun _ _ hnot => ?_, by simp⟩
      rw [hfirst] at hnot
      cases hnot
    · rw [hlast]
      refine ⟨fun hle _ _ x' hx' => ?_, fun hrestarts => ?_⟩
      · cases hx.symm.trans hx'
        exact (hclear _).mp (hle _ rfl)
      · rintro t ⟨⟩
        exact (hclear _).mpr (hrestarts hstill hfirst x hx)

/-- A stream with no requests left restarts, and keeps its trail when its flag is set. -/
lemma Trail.skip {s : DemandStream ℝ G} {ts : List DateTime} (h : Trail m s ts)
    (hstill : s.stillHavingRequestsToBeGenerated m = false) :
    Trail m (s.setBoolFirstDateTimeRequest true) ts ∧ Restarts m s := by
  cases m with
  | STA_ORD =>
    refine ⟨⟨h.1, fun t ht => ?_⟩, trivial⟩
    cases h.2 t ht with
    | statisticsOrder hpart hd hleft => exact .statisticsOrder hpart hd hleft
  | POI_PRO =>
    have hnot : ¬ s.stillHavingRequests = true := by
      rw [show s.stillHavingRequests = false from hstill]
      simp
    exact ⟨fun hc => absurd hc hnot, fun hc => absurd hc hnot⟩

end DemandStream

/-! ### The world -/

section World

variable {Q : Type} [EventQueue ℝ Q] {w w' : World ℝ G Q} {key : DemandStreamKey}

/-- The date-times of the requests that a stream generated, in order. -/
def World.times (w : World ℝ G Q) (key : DemandStreamKey) : List DateTime :=
  (w.history.filter fun r => r.generatorKey = key).map BookingRequestStruct.requestDateTime

/-- The request times of every stream do not go back. -/
def World.NonDecreasing (w : World ℝ G Q) : Prop :=
  ∀ key ∈ w.demandStreamList, (w.times key).IsChain (· ≤ ·)

/-- The streams were started under their keys, and nothing has been generated since. -/
structure JustReset (w : World ℝ G Q) : Prop where
  nodup : w.demandStreamList.Nodup
  key : ∀ key ∈ w.demandStreamList, (w.demandStream key).key = key
  started : ∀ key ∈ w.demandStreamList, (w.demandStream key).Started
  history : w.history = []

/-- Every stream stands at the last of its times. -/
structure Trails (m : DemandGenerationMethod) (w : World ℝ G Q) : Prop where
  nodup : w.demandStreamList.Nodup
  key : ∀ key ∈ w.demandStreamList, (w.demandStream key).key = key
  trail : ∀ key ∈ w.demandStreamList, Trail m (w.demandStream key) (w.times key)

/-- What a computation does to the order of the times: if it returns, they do not go back exactly
when they did not before and `P` holds; if it throws, that is still enough. -/
def Follows {α : Type} (m : DemandGenerationMethod) (w : World ℝ G Q) (P : Prop) :
    EStateM.Result Fault (World ℝ G Q) α → Prop
  | .ok _ w' => Trails m w' ∧ w'.demandStreamList = w.demandStreamList ∧
      (w'.NonDecreasing ↔ w.NonDecreasing ∧ P)
  | .error _ w' => w.NonDecreasing → P → w'.NonDecreasing

variable {α β : Type}

lemma Follows.congr {P P' : Prop} {x : EStateM.Result Fault (World ℝ G Q) α} (h : Follows m w P x)
    (hP : P ↔ P') : Follows m w P' x := propext hP ▸ h

/-- What follows a computation that returned. -/
lemma Follows.trans {P P' : Prop} {a : α}
    (h : Follows m w P (.ok a w' : EStateM.Result Fault (World ℝ G Q) α))
    {x : EStateM.Result Fault (World ℝ G Q) β} (hx : Follows m w' P' x) :
    Follows m w (P ∧ P') x := by
  obtain ⟨-, hlist, hiff⟩ := h
  cases x with
  | error e w₂ => exact fun hnd hP => hx (hiff.mpr ⟨hnd, hP.1⟩) hP.2
  | ok b w₂ =>
    obtain ⟨htrails, hlist', hiff'⟩ := hx
    exact ⟨htrails, hlist'.trans hlist, by rw [hiff', hiff, and_assoc]⟩

lemma Follows.bind {P : Prop} {R : α → World ℝ G Q → Prop} {x : EStateM Fault (World ℝ G Q) α}
    {f : α → EStateM Fault (World ℝ G Q) β} (hx : Follows m w P (x w))
    (hf : ∀ a w', x w = .ok a w' → Trails m w' → Follows m w' (R a w') (f a w')) :
    Follows m w (P ∧ ∀ a w', x w = .ok a w' → R a w') ((x >>= f) w) := by
  cases hxw : x w with
  | error e w₁ =>
    rw [hxw] at hx
    rw [bind_error hxw]
    exact fun hnd hP => hx hnd hP.1
  | ok a w₁ =>
    rw [hxw] at hx
    rw [bind_ok hxw]
    refine (hx.trans (hf a w₁ hxw hx.1)).congr (and_congr_right fun _ => ?_)
    refine ⟨?_, ?_⟩
    · rintro h a' w' ⟨⟩
      exact h
    · exact fun h => h a w₁ rfl

/-- A computation that returns and leaves the streams and the history as they are. -/
lemma Trails.same (h : Trails m w) (a : α) (hlist : w'.demandStreamList = w.demandStreamList)
    (hstream : w'.demandStream = w.demandStream) (hhistory : w'.history = w.history) :
    Follows m w True (.ok a w' : EStateM.Result Fault (World ℝ G Q) α) := by
  have htimes (key : DemandStreamKey) : w'.times key = w.times key := by
    unfold World.times
    rw [hhistory]
  refine ⟨⟨hlist ▸ h.nodup, fun key hkey => ?_, fun key hkey => ?_⟩, hlist, ?_⟩
  · rw [hstream]
    exact h.key key (hlist ▸ hkey)
  · rw [hstream, htimes]
    exact h.trail key (hlist ▸ hkey)
  · unfold World.NonDecreasing
    rw [hlist, and_true]
    exact forall₂_congr fun key _ => by rw [htimes]

lemma times_afterRequest {r : BookingRequestStruct ℝ} {g : G} {s : DemandStream ℝ G}
    (key' : DemandStreamKey) :
    (afterRequest key r g s w).times key'
      = if r.generatorKey = key' then w.times key' ++ [r.requestDateTime] else w.times key' := by
  unfold World.times
  rw [afterRequest_history, List.filter_append, List.map_append]
  split_ifs with h
  · simp [h]
  · simp [h]

/-- With one time more, the times do not decrease if they did not before, and that time is not
less than the last one of its stream. -/
lemma nonDecreasing_append (hlist : w'.demandStreamList = w.demandStreamList)
    (hkey : key ∈ w.demandStreamList) {t : DateTime}
    (htimes : ∀ key', w'.times key' = if key = key' then w.times key' ++ [t] else w.times key') :
    w'.NonDecreasing ↔ w.NonDecreasing ∧ ∀ t' ∈ (w.times key).getLast?, t' ≤ t := by
  unfold World.NonDecreasing
  rw [hlist]
  refine ⟨fun hnd => ?_, ?_⟩
  · have hthis := hnd key hkey
    rw [htimes, if_pos rfl, List.isChain_append] at hthis
    refine ⟨fun key' hkey' => ?_, by simpa using hthis.2.2⟩
    have hnd' := hnd key' hkey'
    rw [htimes] at hnd'
    split_ifs at hnd' with heq
    · exact (List.isChain_append.mp hnd').1
    · exact hnd'
  · rintro ⟨hnd, hle⟩ key' hkey'
    rw [htimes]
    split_ifs with heq
    · subst heq
      exact List.isChain_append.mpr ⟨hnd key hkey, .singleton _, by simpa using hle⟩
    · exact hnd key' hkey'

/-- **A request** of a stream put in the place of one of the world's. -/
lemma Trails.request (h : Trails m w) (hkey : key ∈ w.demandStreamList) {s : DemandStream ℝ G}
    (hs : s.key = key) {P : Prop}
    (hstep : ∀ g g' r s', s.generateNextRequest g m = .ok (r, g') s' →
      Trail m s' (w.times key ++ [r.requestDateTime]) ∧
        ((∀ t ∈ (w.times key).getLast?, t ≤ r.requestDateTime) ↔ P)) :
    Follows m w P (generateNextRequest key m (updateStream key s w)) := by
  set w₁ : World ℝ G Q := updateStream key s w with hw₁
  have hself : w₁.demandStream key = s := updateStream_self ..
  cases hr : generateNextRequest key m w₁ with
  | error e w₂ =>
    obtain ⟨s', rfl⟩ := generateNextRequest_error hr
    exact fun hnd _ => hnd
  | ok r w₂ =>
    obtain ⟨g, s', hgen, rfl⟩ := generateNextRequest_eq_ok.mp hr
    rw [hself] at hgen
    obtain ⟨htrail, hiff⟩ := hstep _ _ _ _ hgen
    have hbase := sameBase_next w₁.generator m s
    rw [hgen, stateOf_ok] at hbase
    have hgenerator : r.generatorKey = key := by
      obtain ⟨t, s₁, x, v, -, -, rfl, -, -⟩ := DemandStream.generateNextRequest_eq_ok.mp hgen
      exact hs
    have hlist : (afterRequest key r g s' w₁).demandStreamList = w.demandStreamList :=
      afterRequest_demandStreamList
    have htimes (key' : DemandStreamKey) : (afterRequest key r g s' w₁).times key'
        = if key = key' then w.times key' ++ [r.requestDateTime] else w.times key' := by
      rw [times_afterRequest, hgenerator]
      rfl
    have hother {key' : DemandStreamKey} (hne : key' ≠ key) :
        (afterRequest key r g s' w₁).demandStream key' = w.demandStream key' := by
      rw [afterRequest_demandStream, Function.update_of_ne hne]
      exact updateStream_of_ne hne _ _
    have hthis : (afterRequest key r g s' w₁).demandStream key = s' := by
      rw [afterRequest_demandStream, Function.update_self]
    refine ⟨⟨hlist ▸ h.nodup, fun key' hkey' => ?_, fun key' hkey' => ?_⟩, hlist, ?_⟩
    · rw [hlist] at hkey'
      by_cases heq : key' = key
      · rw [heq, hthis, hbase.key, hs]
      · rw [hother heq]
        exact h.key key' hkey'
    · rw [hlist] at hkey'
      rw [htimes]
      by_cases heq : key' = key
      · subst heq
        rw [hthis, if_pos rfl]
        exact htrail
      · rw [hother heq, if_neg (Ne.symm heq)]
        exact h.trail key' hkey'
    · rw [nonDecreasing_append hlist hkey htimes, hiff]

/-- **The first requests**: the streams of the loop all restart. -/
lemma Trails.iterateStreams (hu : UniformLaw ℝ G) (he : ExponentialLaw ℝ G)
    {ks : List DemandStreamKey} (hnodup : ks.Nodup) :
    ∀ (w : World ℝ G Q) (t : ℤ), Trails m w → ks ⊆ w.demandStreamList →
      Follows m w (∀ key ∈ ks, Restarts m (w.demandStream key))
        (DemandManager.iterateStreams m ks t w) := by
  induction ks with
  | nil =>
    intro w t h _
    exact (h.same t rfl rfl rfl).congr (by simp)
  | cons key ks ih =>
    intro w t h hks
    have hkey : key ∈ w.demandStreamList := hks (by simp)
    have hkeys : key ∉ ks := (List.nodup_cons.mp hnodup).1
    have ih := ih (List.nodup_cons.mp hnodup).2
    set s := w.demandStream key with hsdef
    set w₁ : World ℝ G Q := updateStream key (s.setBoolFirstDateTimeRequest true) w with hw₁
    have hself : w₁.demandStream key = s.setBoolFirstDateTimeRequest true := updateStream_self ..
    have hother {key' : DemandStreamKey} (hne : key' ≠ key) :
        w₁.demandStream key' = w.demandStream key' := updateStream_of_ne hne _ _
    suffices hsplit : Follows m w
        (Restarts m s ∧ ∀ key' ∈ ks, Restarts m (w.demandStream key'))
        (DemandManager.iterateStreams m (key :: ks) t w) from
      hsplit.congr (List.forall_mem_cons (p := fun key' => Restarts m (w.demandStream key'))).symm
    have hrest {w₂ : World ℝ G Q} (t' : ℤ) (h₂ : Trails m w₂)
        (hlist : w₂.demandStreamList = w.demandStreamList)
        (hstream : ∀ key' ≠ key, w₂.demandStream key' = w.demandStream key') :
        Follows m w₂ (∀ key' ∈ ks, Restarts m (w.demandStream key'))
          (DemandManager.iterateStreams m ks t' w₂) := by
      refine (ih w₂ t' h₂ fun key' hkey' => ?_).congr (forall₂_congr fun key' hkey' => ?_)
      · rw [hlist]
        exact hks (List.mem_cons_of_mem _ hkey')
      · rw [hstream key' (by rintro rfl; exact hkeys hkey')]
    have hstill' : stillHavingRequestsToBeGenerated w₁ key m
        = s.stillHavingRequestsToBeGenerated m := by
      unfold DemandManager.stillHavingRequestsToBeGenerated
      rw [hself]
      cases m with
      | STA_ORD => rfl
      | POI_PRO => rfl
    by_cases hstill : stillHavingRequestsToBeGenerated w₁ key m = true
    · have hrequest := h.request hkey (s := s.setBoolFirstDateTimeRequest true)
        (h.key key hkey) fun g g' r s' hr =>
          (h.trail key hkey).restart hu he (hstill'.symm.trans hstill) hr
      cases hr : generateNextRequest key m w₁ with
      | error e w₂ =>
        rw [iterateStreams_throw rfl hstill hr]
        rw [hr] at hrequest
        exact fun hnd hall => hrequest hnd hall.1
      | ok r w₂ =>
        rw [iterateStreams_next rfl hstill hr]
        rw [hr] at hrequest
        obtain ⟨g, s', -, rfl⟩ := generateNextRequest_eq_ok.mp hr
        refine hrequest.trans (hrest _ hrequest.1 hrequest.2.1 fun key' hne => ?_)
        rw [afterRequest_demandStream, Function.update_of_ne hne]
        exact hother hne
    · have hnone := Bool.not_eq_true _ ▸ hstill
      rw [iterateStreams_skip rfl hnone]
      obtain ⟨htrail, hrestarts⟩ := (h.trail key hkey).skip (hstill'.symm.trans hnone)
      have hskip : Follows m w (Restarts m s)
          (.ok t w₁ : EStateM.Result Fault (World ℝ G Q) ℤ) := by
        refine ⟨⟨h.nodup, fun key' hkey' => ?_, fun key' hkey' => ?_⟩, rfl,
          ⟨fun hnd => ⟨hnd, hrestarts⟩, fun hnd => hnd.1⟩⟩
        · by_cases heq : key' = key
          · rw [heq, hself]
            exact h.key key hkey
          · rw [hother heq]
            exact h.key key' hkey'
        · by_cases heq : key' = key
          · rw [heq, hself]
            exact htrail
          · rw [hother heq]
            exact h.trail key' hkey'
      exact hskip.trans (hrest _ hskip.1 rfl fun key' hne => hother hne)

/-! ### The calls -/

/-- No call for the first requests finds a stream that it would rewind. -/
def Restartable (m : DemandGenerationMethod) (w : World ℝ G Q) : Prop :=
  ∀ key ∈ w.demandStreamList, Restarts m (w.demandStream key)

/-- The condition on a sequence of calls: every call for the first requests among them, in the world
that the calls before it left. -/
def NeverRewinds (m : DemandGenerationMethod) : List ServiceCall → World ℝ G Q → Prop
  | [], _ => True
  | c :: cs, w => (c = .generateFirstRequests → Restartable m w) ∧
      ∀ n w', serve m c w = .ok n w' → NeverRewinds m cs w'

lemma Trails.serve (hu : UniformLaw ℝ G) (he : ExponentialLaw ℝ G) (h : Trails m w)
    (c : ServiceCall) :
    Follows m w (c = .generateFirstRequests → Restartable m w) (DemandManager.serve m c w) := by
  cases c with
  | popEvent =>
    refine Follows.congr (P := True) ?_ (by simp)
    cases hpop : EventQueue.popEvent w.queue with
    | none =>
      rw [serve_popEvent_none hpop]
      exact h.same 0 rfl rfl rfl
    | some p =>
      rw [serve_popEvent_some hpop]
      exact h.same 1 rfl rfl rfl
  | generateNextRequest key =>
    refine Follows.congr (P := True) ?_ (by simp)
    by_cases hcall : key ∈ w.demandStreamList ∧ stillHavingRequestsToBeGenerated w key m = true
    · have hrequest := h.request hcall.1 (s := w.demandStream key) (P := True)
        (h.key key hcall.1) fun g g' r s' hr => by
          obtain ⟨htrail, hle⟩ := (h.trail key hcall.1).next hu he hcall.2 hr
          exact ⟨htrail, by simpa using hle⟩
      rw [updateStream_eq_self] at hrequest
      cases hr : DemandManager.generateNextRequest key m w with
      | error e w₂ =>
        rw [serve_next_throw hcall.1 hcall.2 hr]
        rw [hr] at hrequest
        exact hrequest
      | ok r w₂ =>
        rw [serve_next hcall.1 hcall.2 hr]
        rw [hr] at hrequest
        exact hrequest
    · rw [serve_next_skip hcall]
      exact h.same 0 rfl rfl rfl
  | generateFirstRequests =>
    refine Follows.congr (P := Restartable m w) ?_ (by simp)
    have hloop : Follows m w (Restartable m w)
        (DemandManager.iterateStreams m w.demandStreamList 0 w) :=
      h.iterateStreams hu he h.nodup w 0 (List.Subset.refl _)
    have hfirst : Follows m w (Restartable m w ∧ ∀ t w',
        DemandManager.iterateStreams m w.demandStreamList 0 w = .ok t w' → True)
        (DemandManager.generateFirstRequests m w) :=
      hloop.bind fun t w' _ h' => h'.same t rfl rfl rfl
    refine (hfirst.bind (R := fun _ _ => True) fun t w' _ h' => h'.same 0 rfl rfl rfl).congr ?_
    simp

lemma Trails.serveAll (hu : UniformLaw ℝ G) (he : ExponentialLaw ℝ G) (cs : List ServiceCall) :
    ∀ w : World ℝ G Q, Trails m w →
      Follows m w (NeverRewinds m cs w) (DemandManager.serveAll m cs w) := by
  induction cs with
  | nil =>
    intro w h
    exact h.same 0 rfl rfl rfl
  | cons c cs ih =>
    intro w h
    have hrest (n : ℕ) (w' : World ℝ G Q) (h' : Trails m w') :
        Follows m w'
          (NeverRewinds m cs w' ∧ ∀ k w'', DemandManager.serveAll m cs w' = .ok k w'' → True)
          ((DemandManager.serveAll m cs >>= fun k => pure (n + k)) w') :=
      (ih w' h').bind fun k w'' _ h'' => h''.same (n + k) rfl rfl rfl
    have hall := (h.serve hu he c).bind (R := fun _ w' => NeverRewinds m cs w')
      fun n w' _ h' => (hrest n w' h').congr (by simp)
    exact hall

lemma JustReset.trails (h : JustReset w) : Trails m w := by
  refine ⟨h.nodup, h.key, fun key hkey => ?_⟩
  unfold World.times
  rw [h.history]
  exact .of_fresh (h.started key hkey).fresh

lemma JustReset.nonDecreasing (h : JustReset w) : w.NonDecreasing := by
  intro key _
  unfold World.times
  rw [h.history]
  exact .nil

/-- **The order of the calls**: whatever calls are made between two resets, also if one throws, the
request times of no stream go back if no call for the first requests rewinds one; and only then, if
all the calls return. -/
theorem nonDecreasing_iff (hu : UniformLaw ℝ G) (he : ExponentialLaw ℝ G) {w₀ : World ℝ G Q}
    (h₀ : JustReset w₀) (cs : List ServiceCall) :
    (NeverRewinds m cs w₀ → (stateOf (DemandManager.serveAll m cs w₀)).NonDecreasing) ∧
      ∀ n w, DemandManager.serveAll m cs w₀ = .ok n w → w.NonDecreasing → NeverRewinds m cs w₀ := by
  have hfollows := h₀.trails.serveAll hu he cs (m := m)
  have hnd := h₀.nonDecreasing
  cases hall : DemandManager.serveAll m cs w₀ with
  | error e w =>
    rw [hall] at hfollows
    exact ⟨fun hnever => hfollows hnd hnever, fun n w' h => by cases h⟩
  | ok n w =>
    rw [hall] at hfollows
    obtain ⟨-, -, hiff⟩ := hfollows
    refine ⟨fun hnever => hiff.mpr ⟨hnd, hnever⟩, ?_⟩
    rintro n' w' ⟨⟩ hnd'
    exact (hiff.mp hnd').2

end World

/-! ### A stream that steps from day to day -/

section Sample

/-- A month of days, one request expected, and exponential variates of one day. -/
structure Daily (s : DemandStream ℝ (Tape ℝ)) : Prop where
  key : s.key = sampleKey
  characteristics : s.demandCharacteristics = sampleCharacteristics [(-30, 0), (-1, 1)] 0
  mean : s.demandDistribution.meanNumberOfRequests = 1
  still : s.stillHavingRequests = true
  generator : s.requestDateTimeRandomGenerator = Tape.const 0 1 0 Tape.zero_mem Tape.one_pos

lemma Daily.pattern {s : DemandStream ℝ (Tape ℝ)} (h : Daily s) :
    let a := s.demandCharacteristics.arrivalPattern
    a.size = 2 ∧ a.v 0 = -30 ∧ a.v 1 = -1 ∧ a.c 0 = 0 ∧ a.c 1 = 1 := by
  rw [h.characteristics]
  exact ContinuousAttributeLite.init_pair (by norm_num) 0 1

lemma Daily.steady {s : DemandStream ℝ (Tape ℝ)} (h : Daily s) :
    Steady s.demandCharacteristics s.demandCharacteristicsRandomGenerator := by
  rw [h.characteristics]
  exact ⟨List.length_pos_of_ne_nil (OMap.ofPairs_pairs_ne_nil (by simp)),
    fun _ => ⟨sampleDraws Tape.uniformLaw _⟩⟩

lemma Daily.first {s : DemandStream ℝ (Tape ℝ)} (h : Daily s)
    (hfirst : s.firstDateTimeRequest = true) :
    s.position = .ok (-30) := by
  obtain ⟨-, hv0, -, -, -⟩ := h.pattern
  have hrises : s.demandCharacteristics.arrivalPattern.Rises := by
    rw [h.characteristics]
    exact ContinuousAttributeLite.rises_pair (by norm_num)
  rw [position_first hfirst, ContinuousAttributeLite.getValue_zero hrises.pos hrises.nonneg,
    hrises.startKnot, hv0]

/-- A request of such a stream is a day after the last one. -/
lemma Daily.next {w : World ℝ (Tape ℝ) (SortedQueue ℝ)} (h : Daily (w.demandStream sampleKey))
    {x : ℝ} (hx : (w.demandStream sampleKey).position = .ok x) (h0 : -30 ≤ x) (h1 : x < -2) :
    ∃ r w', generateNextRequest sampleKey .POI_PRO w = .ok r w' ∧
      Daily (w'.demandStream sampleKey) ∧ (w'.demandStream sampleKey).position = .ok (x + 1) ∧
      w'.demandStreamList = w.demandStreamList ∧
      w'.times sampleKey = w.times sampleKey
        ++ [DateTime.ptime 2455237 (DateTime.hours 8) + convertFloatIntoDuration (x + 1)] := by
  obtain ⟨hsize, hv0, hv1, hc0, hc1⟩ := h.pattern
  set s := w.demandStream sampleKey with hs
  have hexp (r : ℝ) : s.exponentialOf r = 1 := by
    unfold exponentialOf
    rw [h.generator]
    rfl
  have hrate : 0 < s.rateOf 0 := by
    unfold rateOf Knots.slopeOf
    rw [hv0, hv1, hc0, hc1, h.mean]
    norm_num
  have hvisit := visit_accept (i := 0) hx (by omega) (by rw [hv0]; exact h0)
    (by rw [hv1]; linarith) (by linarith) hrate (by rw [hexp, hv1]; linarith)
  rw [hexp] at hvisit
  obtain ⟨r, hr, hkey, -, htime⟩ := h.steady.generateNextRequest
    (Call.accept hvisit).generateTimeOfRequest w.generator
  refine ⟨r, _, generateNextRequest_eq_ok.mpr ⟨_, _, hr, rfl⟩, ?_, ?_, ?_, ?_⟩
  · rw [afterRequest_demandStream, Function.update_self]
    exact ⟨h.key, h.characteristics, h.mean, h.still, by
      change (RandomGeneration.exponential (s.rateOf 0) s.requestDateTimeRandomGenerator).2 = _
      rw [h.generator]
      rfl⟩
  · rw [afterRequest_demandStream, Function.update_self]
    rfl
  · rw [afterRequest_demandStreamList]
  · rw [times_afterRequest, hkey, h.key, if_pos rfl, htime]
    unfold departureDateTime
    rw [h.key]
    rfl

/-- A call for the first requests sends it back to its first day. -/
lemma Daily.serve_first {w : World ℝ (Tape ℝ) (SortedQueue ℝ)}
    (h : Daily (w.demandStream sampleKey))
    (hlist : w.demandStreamList = [sampleKey]) :
    ∃ w', serve .POI_PRO .generateFirstRequests w = .ok 0 w' ∧
      Daily (w'.demandStream sampleKey) ∧ (w'.demandStream sampleKey).position = .ok (-30 + 1) ∧
      w'.demandStreamList = [sampleKey] ∧
      w'.times sampleKey = w.times sampleKey
        ++ [DateTime.ptime 2455237 (DateTime.hours 8)
          + convertFloatIntoDuration (-30 + 1 : ℝ)] := by
  set w₁ : World ℝ (Tape ℝ) (SortedQueue ℝ) := updateStream sampleKey
    ((w.demandStream sampleKey).setBoolFirstDateTimeRequest true) w with hw₁
  have hself : w₁.demandStream sampleKey
      = (w.demandStream sampleKey).setBoolFirstDateTimeRequest true := updateStream_self ..
  have hdaily : Daily (w₁.demandStream sampleKey) := by
    rw [hself]
    exact ⟨h.key, h.characteristics, h.mean, h.still, h.generator⟩
  have hx : (w₁.demandStream sampleKey).position = .ok (-30) :=
    hdaily.first (by rw [hself]; rfl)
  obtain ⟨r, w₂, hr, hdaily', hx', hlist', htimes⟩ := hdaily.next hx le_rfl (by norm_num)
  have hstill : stillHavingRequestsToBeGenerated w₁ sampleKey .POI_PRO = true := hdaily.still
  have hloop : iterateStreams .POI_PRO [sampleKey] 0 w
      = .ok (0 + (w₁.demandStream sampleKey).totalNumberOfRequestsToBeGenerated) w₂ :=
    iterateStreams_next hw₁ hstill hr
  rw [← hlist] at hloop
  exact ⟨_, DemandManager.serve_first (generateFirstRequests_ok hloop), hdaily', hx',
    hlist'.trans hlist, htimes⟩

lemma patternSample_daily :
    Daily ((patternSample [(-30, 0), (-1, 1)]).demandStream sampleKey) :=
  ⟨rfl, rfl, rfl, rfl, rfl⟩

lemma patternSample_justReset {pattern : List (ℝ × ℝ)} : JustReset (patternSample pattern) := by
  refine ⟨List.nodup_singleton _, fun key hkey => ?_, fun key _ => sampleStream_started, rfl⟩
  exact (List.mem_singleton.mp hkey).symm

theorem nonDecreasing_iff_sample :
    (stateOf (serveAll .POI_PRO [.generateFirstRequests, .generateNextRequest sampleKey]
      (patternSample [(-30, 0), (-1, 1)]))).NonDecreasing := by
  refine (nonDecreasing_iff Tape.uniformLaw Tape.positiveExponentialLaw.nonneg
    patternSample_justReset _).1
    ⟨fun _ key _ _ hfirst => ?_, fun _ _ _ => ⟨by simp, fun _ _ _ => trivial⟩⟩
  cases hfirst

/-- A call for the first requests after two requests sends the stream back by a day. -/
theorem goesBack :
    ∃ n w, serveAll .POI_PRO [.generateFirstRequests, .generateNextRequest sampleKey,
        .generateFirstRequests] (patternSample [(-30, 0), (-1, 1)]) = .ok n w ∧
      JustReset (patternSample [(-30, 0), (-1, 1)]) ∧
      (∃ k < ((patternSample [(-30, 0), (-1, 1)]).demandStream
          sampleKey).demandCharacteristics.arrivalPattern.size,
        ((patternSample [(-30, 0), (-1, 1)]).demandStream
          sampleKey).demandCharacteristics.arrivalPattern.v k = -1 ∧
        ∀ i < k, ((patternSample [(-30, 0), (-1, 1)]).demandStream
            sampleKey).demandCharacteristics.arrivalPattern.c i
          < ((patternSample [(-30, 0), (-1, 1)]).demandStream
            sampleKey).demandCharacteristics.arrivalPattern.c (i + 1)) ∧
      UniformLaw ℝ (Tape ℝ) ∧ PositiveExponentialLaw ℝ (Tape ℝ) ∧ ¬ w.NonDecreasing := by
  obtain ⟨hsize, -, hv1, hc0, hc1⟩ := patternSample_daily.pattern
  obtain ⟨w₁, hserve₁, hdaily₁, hx₁, hlist₁, htimes₁⟩ := patternSample_daily.serve_first rfl
  obtain ⟨r, w₂, hr, hdaily₂, hx₂, hlist₂, htimes₂⟩ :=
    hdaily₁.next hx₁ (by norm_num) (by norm_num)
  obtain ⟨w₃, hserve₃, -, -, hlist₃, htimes₃⟩ := hdaily₂.serve_first (hlist₂.trans hlist₁)
  have hserve₂ := serve_next (m := .POI_PRO) (by rw [hlist₁]; simp) hdaily₁.still hr
  refine ⟨_, w₃, serveAll_cons hserve₁ (serveAll_cons hserve₂ (serveAll_cons hserve₃ rfl)),
    patternSample_justReset, ⟨1, by omega, hv1, fun i hi => ?_⟩, Tape.uniformLaw,
    Tape.positiveExponentialLaw, fun hnd => ?_⟩
  · obtain rfl : i = 0 := by omega
    rw [hc0, hc1]
    exact one_pos
  have hchain := hnd sampleKey (by rw [hlist₃]; simp)
  rw [htimes₃, htimes₂, htimes₁] at hchain
  have hback : DateTime.ptime 2455237 (DateTime.hours 8)
        + convertFloatIntoDuration (-30 + 1 + 1 : ℝ)
      ≤ DateTime.ptime 2455237 (DateTime.hours 8) + convertFloatIntoDuration (-30 + 1 : ℝ) :=
    (List.isChain_append.mp hchain).2.2 _ (by simp) _ rfl
  have hfloor : ⌊(-30 + 1 + 1 : ℝ) * 86400000⌋ = -2419200000 := by
    rw [Int.floor_eq_iff]
    norm_num
  have hfloor' : ⌊(-30 + 1 : ℝ) * 86400000⌋ = -2505600000 := by
    rw [Int.floor_eq_iff]
    norm_num
  rw [convertFloatIntoDuration_eq, convertFloatIntoDuration_eq, hfloor, hfloor'] at hback
  unfold DateTime.millisec at hback
  linarith

end Sample

end Trademgen
