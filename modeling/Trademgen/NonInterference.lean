import Trademgen.Accounting
import Trademgen.Cancellation
import Trademgen.Lib.Interleaving

/-!
Streams do not interfere: what a stream generates is decided by its own generators, however the
calls on the other streams and the cancellations fall between its own.

Only the willingness-to-pay is drawn from the shared generator; only the date-time of a request
depends on the method.
-/

set_option linter.unusedSectionVars false

namespace Trademgen

open Faulting Interleaving EventQueue

namespace DemandStream

variable {K G : Type} [Field K] [LinearOrder K] [FloorRing K] [Libm K] [RandomGeneration K G]

/-! ### One stream -/

/-- The requests differ at most in their willingness-to-pay. -/
def SameButWTP (r r' : BookingRequestStruct K) : Prop := r' = { r with wtp := r'.wtp }

/-- The requests differ at most in their date-time and in their willingness-to-pay. -/
def SameButTimeAndWTP (r r' : BookingRequestStruct K) : Prop :=
  r' = { r with requestDateTime := r'.requestDateTime, wtp := r'.wtp }

/-- A request of a stream, whatever the state of the shared generator. -/
def Generation (s : DemandStream K G) (m : DemandGenerationMethod) (r : BookingRequestStruct K)
    (s' : DemandStream K G) : Prop :=
  ∃ g g', generateNextRequest g m s = .ok (r, g') s'

lemma Draws.unique {d : DemandCharacteristics K} {g : G} (x y : Draws d g) : x = y := by
  obtain ⟨_, _, _, _, _, _, _, hx0, hx1, hx2, hx3, hx4, hx7, hx8⟩ := x
  obtain ⟨_, _, _, _, _, _, _, hy0, hy1, hy2, hy3, hy4, hy7, hy8⟩ := y
  cases hx0.symm.trans hy0
  cases hx1.symm.trans hy1
  cases hx2.symm.trans hy2
  cases hx3.symm.trans hy3
  cases hx4.symm.trans hy4
  cases hx7.symm.trans hy7
  cases hx8.symm.trans hy8
  rfl

/-- Two requests of one state by one method have everything but the willingness-to-pay in common,
and leave the same state. -/
lemma Generation.same {s s₁ s₂ : DemandStream K G} {m : DemandGenerationMethod}
    {r₁ r₂ : BookingRequestStruct K} (h₁ : Generation s m r₁ s₁) (h₂ : Generation s m r₂ s₂) :
    s₁ = s₂ ∧ SameButWTP r₁ r₂ := by
  obtain ⟨g₁, _, h₁⟩ := h₁
  obtain ⟨g₂, _, h₂⟩ := h₂
  obtain ⟨t, u, x, w, ht, -, rfl, -, rfl⟩ := generateNextRequest_eq_ok.mp h₁
  obtain ⟨t', u', x', w', ht', -, rfl, -, rfl⟩ := generateNextRequest_eq_ok.mp h₂
  cases ht.symm.trans ht'
  cases x.unique x'
  exact ⟨rfl, rfl⟩

/-- The streams make their requests of the same draws. -/
structure SameDraws (s s' : DemandStream K G) : Prop where
  key : s'.key = s.key
  characteristics : s'.demandCharacteristics = s.demandCharacteristics
  generator : s'.demandCharacteristicsRandomGenerator = s.demandCharacteristicsRandomGenerator

/-- A request takes nine variates, whatever the method. -/
lemma Generation.draws {s s' : DemandStream K G} {m : DemandGenerationMethod}
    {r : BookingRequestStruct K} (h : Generation s m r s') :
    (∃ (t : DateTime) (w : K)
      (x : Draws s.demandCharacteristics s.demandCharacteristicsRandomGenerator),
      r = requestOf s t x w) ∧
    SameDraws (s.withCharacteristics (advance s.demandCharacteristicsRandomGenerator 9)) s' := by
  obtain ⟨g, _, h⟩ := h
  obtain ⟨t, u, x, w, ht, -, rfl, -, rfl⟩ := generateNextRequest_eq_ok.mp h
  have htime := (timeDraw m).timeOnly s
  rw [ht, stateOf_ok] at htime
  exact ⟨⟨t, w, x, rfl⟩, htime.key, htime.characteristics, rfl⟩

/-- Requests by any two methods have everything but their time and willingness-to-pay in common,
and leave streams that go on to make theirs of the same draws. -/
lemma SameDraws.generation {s s' s₁ s₁' : DemandStream K G} {m m' : DemandGenerationMethod}
    {r r' : BookingRequestStruct K} (h : SameDraws s s') (hr : Generation s m r s₁)
    (hr' : Generation s' m' r' s₁') : SameDraws s₁ s₁' ∧ SameButTimeAndWTP r r' := by
  obtain ⟨hkey, hd, hg⟩ := h
  obtain ⟨⟨t, w, x, rfl⟩, hnext⟩ := hr.draws
  obtain ⟨⟨t', w', x', rfl⟩, hnext'⟩ := hr'.draws
  refine ⟨⟨?_, ?_, ?_⟩, ?_⟩
  · rw [hnext.key, hnext'.key]
    exact hkey
  · rw [hnext.characteristics, hnext'.characteristics]
    exact hd
  · rw [hnext.generator, hnext'.generator]
    exact congrArg (fun g => advance g 9) hg
  · obtain ⟨key, d, dist, n, c, gt, gc, still, first, last⟩ := s
    obtain ⟨key', d', dist', n', c', gt', gc', still', first', last'⟩ := s'
    cases hkey
    cases hd
    cases hg
    cases x.unique x'
    rfl

end DemandStream

namespace DemandManager

open DemandStream (sampleKey)

variable {K G Q I : Type} [Field K] [LinearOrder K] [FloorRing K] [Libm K] [RandomGeneration K G]
  [EventQueue K Q]

/-! ### Interleaved calls -/

inductive ManagerCall (K I : Type)
  | generateNextRequest (iKey : DemandStreamKey)
      (iDemandGenerationMethod : DemandGenerationMethod)
  | generateCancellation (iTravelSolution : TravelSolutionStruct I) (iPartySize : ℕ)
      (iRequestTime : DateTime) (iDepartureDate : Date) (ioEventStruct : CallerEvent K I)

/-- A call, with the request that it returns. -/
def perform : ManagerCall K I → EStateM Fault (World K G Q) (Option (BookingRequestStruct K))
  | .generateNextRequest iKey m => do
    let r ← generateNextRequest iKey m
    return some r
  | .generateCancellation t n r d e => fun w =>
    match generateCancellation w.generator t n r d e with
    | .ok (_, g, _) => .ok none { w with generator := g }
    | .error f => .error f w

/-- The calls, each with the request that it returned. -/
def performAll : List (ManagerCall K I) →
    EStateM Fault (World K G Q) (List (ManagerCall K I × Option (BookingRequestStruct K)))
  | [] => return []
  | c :: cs => do
    let o ← perform c
    let l ← performAll cs
    return (c, o) :: l

/-- The method of a call, if it is on the stream. -/
def methodOn (key : DemandStreamKey) : ManagerCall K I → Option DemandGenerationMethod
  | .generateNextRequest iKey m => if iKey = key then some m else none
  | .generateCancellation .. => none

/-- The methods of the calls on a stream. -/
def methodsOn (key : DemandStreamKey) (cs : List (ManagerCall K I)) :
    List DemandGenerationMethod :=
  cs.filterMap (methodOn key)

/-- What a stream takes part in. -/
def ownRequest (key : DemandStreamKey) : ManagerCall K I → Option (BookingRequestStruct K) →
    Option (DemandGenerationMethod × BookingRequestStruct K)
  | .generateNextRequest iKey m, some r => if iKey = key then some (m, r) else none
  | _, _ => none

lemma ownRequest_next (key iKey : DemandStreamKey) (m : DemandGenerationMethod)
    (r : BookingRequestStruct K) :
    ownRequest key (.generateNextRequest iKey m : ManagerCall K I) (some r)
      = if iKey = key then some (m, r) else none := rfl

/-- The requests of a stream, in order. -/
def requestsOf (key : DemandStreamKey)
    (l : List (ManagerCall K I × Option (BookingRequestStruct K))) :
    List (BookingRequestStruct K) :=
  (project (ownRequest key) l).map Prod.snd

/-- A call that returns. -/
def Performed (w : World K G Q) (c : ManagerCall K I) (o : Option (BookingRequestStruct K))
    (w' : World K G Q) : Prop :=
  perform c w = .ok o w'

lemma performed_next {key : DemandStreamKey} {m : DemandGenerationMethod} {w w' : World K G Q}
    {o : Option (BookingRequestStruct K)}
    (h : Performed w (.generateNextRequest key m : ManagerCall K I) o w') :
    ∃ r s, o = some r ∧ (w.demandStream key).Generation m r s ∧
      w'.demandStream = Function.update w.demandStream key s := by
  obtain ⟨r, w₁, hr, hret⟩ := bind_eq_ok.mp h
  cases hret
  obtain ⟨g, s, hgen, rfl⟩ := generateNextRequest_eq_ok.mp hr
  exact ⟨r, s, rfl, ⟨_, _, hgen⟩, afterRequest_demandStream⟩

lemma performed_cancellation {t : TravelSolutionStruct I} {n : ℕ} {r : DateTime} {d : Date}
    {e : CallerEvent K I} {w w' : World K G Q} {o : Option (BookingRequestStruct K)}
    (h : Performed w (.generateCancellation t n r d e) o w') :
    o = none ∧ w'.demandStream = w.demandStream := by
  unfold Performed perform at h
  cases hc : generateCancellation w.generator t n r d e with
  | error f =>
    simp only [hc] at h
    cases h
  | ok x =>
    obtain ⟨b, g, e'⟩ := x
    simp only [hc] at h
    cases h
    exact ⟨rfl, rfl⟩

lemma performAll_run {cs : List (ManagerCall K I)} {w w' : World K G Q}
    {l : List (ManagerCall K I × Option (BookingRequestStruct K))}
    (h : performAll cs w = .ok l w') :
    Run Performed w l w' ∧ ∀ key, (project (ownRequest key) l).map Prod.fst = methodsOn key cs := by
  induction cs generalizing w l with
  | nil =>
    cases h
    exact ⟨.nil, fun _ => rfl⟩
  | cons c cs ih =>
    obtain ⟨o, w₁, hc, h⟩ := bind_eq_ok.mp h
    obtain ⟨k, w₂, hcs, h⟩ := bind_eq_ok.mp h
    cases h
    obtain ⟨hrun, hmethods⟩ := ih hcs
    refine ⟨.cons hc hrun, fun key => ?_⟩
    cases c with
    | generateCancellation t n r d e =>
      rw [project_cons_none rfl, hmethods]
      rfl
    | generateNextRequest iKey m =>
      obtain ⟨r, s, rfl, -⟩ := performed_next hc
      have hown := ownRequest_next (I := I) key iKey m r
      have hon : methodOn key (.generateNextRequest iKey m : ManagerCall K I)
          = if iKey = key then some m else none := rfl
      by_cases hkey : iKey = key
      · rw [if_pos hkey] at hown hon
        rw [project_cons_some hown, List.map_cons, hmethods]
        exact (List.filterMap_cons_some hon).symm
      · rw [if_neg hkey] at hown hon
        rw [project_cons_none hown, hmethods]
        exact (List.filterMap_cons_none hon).symm

/-- The calls on a stream are a run of the stream alone. -/
lemma run_stream (key : DemandStreamKey) {w w' : World K G Q}
    {l : List (ManagerCall K I × Option (BookingRequestStruct K))} (h : Run Performed w l w') :
    Run DemandStream.Generation (w.demandStream key) (project (ownRequest key) l)
      (w'.demandStream key) := by
  refine h.project (fun w => w.demandStream key) (fun {w c o w' m r} hstep hown => ?_)
    fun {w c o w'} hstep hown => ?_
  · cases c with
    | generateCancellation => cases hown
    | generateNextRequest iKey m' =>
      obtain ⟨r', s, rfl, hgen, hstream⟩ := performed_next hstep
      by_cases hkey : iKey = key
      · subst hkey
        simp only [ownRequest, if_true, Option.some.injEq, Prod.mk.injEq] at hown
        obtain ⟨rfl, rfl⟩ := hown
        rw [hstream, Function.update_self]
        exact hgen
      · simp [ownRequest, hkey] at hown
  · cases c with
    | generateCancellation => rw [(performed_cancellation hstep).2]
    | generateNextRequest iKey m' =>
      obtain ⟨r', s, rfl, -, hstream⟩ := performed_next hstep
      have hkey : key ≠ iKey := by
        rintro rfl
        simp [ownRequest] at hown
      rw [hstream, Function.update_of_ne hkey]

/-- **Non-interference.** Whatever else is called in between, the requests of a stream agree one by
one: in everything but their willingness-to-pay if the calls on it are by the same methods, and in
everything but that and their date-time if they are as many. -/
theorem requests_independent {key : DemandStreamKey} {w w₁ w' w₁' : World K G Q}
    {cs cs' : List (ManagerCall K I)}
    {l l' : List (ManagerCall K I × Option (BookingRequestStruct K))}
    (hstream : w.demandStream key = w'.demandStream key)
    (h : performAll cs w = .ok l w₁) (h' : performAll cs' w' = .ok l' w₁') :
    (methodsOn key cs = methodsOn key cs' →
      List.Forall₂ DemandStream.SameButWTP (requestsOf key l) (requestsOf key l')) ∧
    ((methodsOn key cs).length = (methodsOn key cs').length →
      List.Forall₂ DemandStream.SameButTimeAndWTP (requestsOf key l) (requestsOf key l')) := by
  obtain ⟨hrun, hm⟩ := performAll_run h
  obtain ⟨hrun', hm'⟩ := performAll_run h'
  have hs := run_stream key hrun
  have hs' := run_stream key hrun'
  rw [← hstream] at hs'
  refine ⟨fun hmethods => ?_, fun hlength => ?_⟩
  · refine hs.simulates (R := Eq) (A := Eq) ?_ hs' rfl ?_
    · rintro s _ m _ r r' s₁ s₁' rfl rfl hr hr'
      exact hr.same hr'
    · rw [hm, hm', hmethods]
      exact List.forall₂_refl _
  · refine hs.simulates (R := DemandStream.SameDraws) (A := fun _ _ => True) ?_ hs'
      ⟨rfl, rfl, rfl⟩ ?_
    · rintro s s' m m' r r' s₁ s₁' hsame - hr hr'
      exact hsame.generation hr hr'
    · rw [hm, hm']
      exact List.forall₂_iff_get.mpr ⟨hlength, fun _ _ _ => trivial⟩

/-! ### A cancellation before the request -/

/-- Without segments no class is looked for, and the call returns. -/
lemma generateCancellation_noSegments (g : G) {t : TravelSolutionStruct I}
    (ht : t.classObjectIDMapHolder = []) (n : ℕ) (r : DateTime) (d : Date) (e : CallerEvent K I) :
    ∃ b g' e', generateCancellation g t n r d e = .ok (b, g', e') := by
  rw [generateCancellation_eq, ht]
  split_ifs <;> exact ⟨_, _, _, rfl⟩

/-- The theorem for a request made at once, and one made after a cancellation was asked for. -/
theorem requests_independent_sample :
    let next : ManagerCall ℝ ℕ := .generateNextRequest sampleKey .STA_ORD
    let cancel : ManagerCall ℝ ℕ := .generateCancellation ⟨[], [], []⟩ 1 0 0 .empty
    ∃ l w₁ l' w₁', performAll [next] (lastMinute 36000 1) = .ok l w₁ ∧
      performAll [cancel, next] (lastMinute 36000 1) = .ok l' w₁' ∧
      List.Forall₂ DemandStream.SameButWTP (requestsOf sampleKey l) (requestsOf sampleKey l') := by
  intro next cancel
  have hready := lastMinute_ready 36000 1
  have hkey : sampleKey ∈ (lastMinute 36000 1).demandStreamList := List.mem_singleton.mpr rfl
  have hlt : ((0 : ℕ) : ℤ) < ((lastMinute 36000 1).demandStream
      sampleKey).totalNumberOfRequestsToBeGenerated := by simp
  have hnext (w : World ℝ (Tape ℝ) (SortedQueue ℝ))
      (hlist : w.demandStreamList = (lastMinute 36000 1).demandStreamList)
      (hstream : w.demandStream = (lastMinute 36000 1).demandStream) :
      ∃ o w', perform next w = .ok o w' := by
    obtain ⟨r, w', hr, -⟩ := (hready.tracks hlist fun key _ => by rw [hstream]).next
      SortedQueue.law hready hkey hlt
    exact ⟨some r, w', bind_ok hr⟩
  obtain ⟨b, g, e, hcancel⟩ := generateCancellation_noSegments (I := ℕ)
    (lastMinute 36000 1).generator (t := ⟨[], [], []⟩) rfl 1 0 0 .empty
  have hperform : perform cancel (lastMinute 36000 1)
      = .ok none { lastMinute 36000 1 with generator := g } := by
    unfold cancel perform
    dsimp only
    rw [hcancel]
  obtain ⟨o, w₁, ho⟩ := hnext (lastMinute 36000 1) rfl rfl
  obtain ⟨o', w₁', ho'⟩ := hnext { lastMinute 36000 1 with generator := g } rfl rfl
  have hrun : performAll [next] (lastMinute 36000 1) = .ok [(next, o)] w₁ := bind_ok ho
  have hrun' : performAll [cancel, next] (lastMinute 36000 1)
      = .ok [(cancel, none), (next, o')] w₁' :=
    (bind_ok hperform).trans (bind_ok (bind_ok ho'))
  exact ⟨_, _, _, _, hrun, hrun', (requests_independent rfl hrun hrun').1 rfl⟩

end DemandManager

end Trademgen
