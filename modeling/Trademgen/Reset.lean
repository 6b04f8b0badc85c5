import Trademgen.DemandStreamSpec

/-!
A stream that was reset is as good as new.

`reset` leaves the offset of the last Poisson request as it was. It is not read before it is
written as long as the first-request flag is set, and that flag is set by `init`: streams that
differ in it only, and only while the flag is set, behave alike.
-/

set_option linter.unusedSectionVars false

namespace Trademgen.DemandStream

open Faulting

variable {K G : Type} [Field K] [LinearOrder K] [FloorRing K] [Libm K] [RandomGeneration K G]

/-! ### Streams that behave alike -/

/-- The streams differ at most in the offset of the last request, and not once it is read. -/
inductive Alike (s : DemandStream K G) : DemandStream K G → Prop
  | mk (x : K) (h : s.firstDateTimeRequest = false → x = s.dateTimeLastRequest) :
      Alike s { s with dateTimeLastRequest := x }

lemma Alike.refl (s : DemandStream K G) : Alike s s := .mk _ fun _ => rfl

lemma Alike.withCharacteristics {s t : DemandStream K G} (h : Alike s t) (g : G) :
    Alike (s.withCharacteristics g) (t.withCharacteristics g) := by
  obtain ⟨x, hx⟩ := h
  exact .mk x hx

lemma Alike.stillHaving {s t : DemandStream K G} (h : Alike s t) (m : DemandGenerationMethod) :
    t.stillHavingRequestsToBeGenerated m = s.stillHavingRequestsToBeGenerated m := by
  obtain ⟨x, -⟩ := h
  rfl

/-- A computation that does the same on streams that behave alike, and leaves such streams. -/
def Respects {α : Type} (x : EStateM Fault (DemandStream K G) α) : Prop :=
  ∀ s t, Alike s t → Related Alike (x s) (x t)

section Respects

variable {α β : Type}

lemma respects_bind {x : EStateM Fault (DemandStream K G) α}
    {f : α → EStateM Fault (DemandStream K G) β} (hx : Respects x) (hf : ∀ a, Respects (f a)) :
    Respects (x >>= f) :=
  fun s t h => (hx s t h).bind hf

/-- Of a stream that is read, nothing may be used that differs. -/
lemma respects_get {f : DemandStream K G → EStateM Fault (DemandStream K G) β}
    (hf : ∀ s t, Alike s t → f s = f t) (h : ∀ s, Respects (f s)) : Respects (get >>= f) := by
  intro s t hst
  rw [get_bind, get_bind, ← hf s t hst]
  exact h s s t hst

lemma respects_pure (a : α) : Respects (pure a : EStateM Fault (DemandStream K G) α) :=
  fun _ _ h => .ok h

lemma respects_lookup (x : Except Fault α) :
    Respects (lookup x : EStateM Fault (DemandStream K G) α) := by
  intro s t h
  cases x with
  | ok a => exact .ok h
  | error e => exact .error h

end Respects

/-! ### The characteristics -/

lemma respects_draw : Respects (drawDemandCharacteristics (K := K) (G := G)) := by
  rintro s _ ⟨x, hx⟩
  exact .ok (.mk x hx)

lemma respects_categorical {T : Type}
    (table : DemandCharacteristics K → CategoricalAttributeLite T K) :
    Respects (generateCategorical (G := G) table) := by
  refine respects_bind respects_draw fun u => respects_get ?_ fun s => respects_lookup _
  rintro s _ ⟨x, -⟩
  rfl

lemma respects_below (prob : DemandCharacteristics K → K) :
    Respects (generateBelow (G := G) prob) := by
  refine respects_bind respects_draw fun u => respects_get ?_ fun s => respects_pure _
  rintro s _ ⟨x, -⟩
  rfl

lemma respects_preferredDepartureTime :
    Respects (generatePreferredDepartureTime (K := K) (G := G)) := by
  refine respects_bind respects_draw fun u => respects_get ?_ fun s =>
    respects_bind (respects_lookup _) fun n => respects_pure _
  rintro s _ ⟨x, -⟩
  rfl

lemma respects_valueOfTime : Respects (generateValueOfTime (K := K) (G := G)) := by
  refine respects_bind respects_draw fun u => respects_get ?_ fun s => respects_lookup _
  rintro s _ ⟨x, -⟩
  rfl

lemma respects_wtp (g : G) (d : Date) (t : DateTime) (n : ℕ) :
    Respects (generateWTP (K := K) g d t n) := by
  refine respects_get ?_ fun s => respects_bind (respects_lookup _) fun f => respects_pure _
  rintro s _ ⟨x, -⟩
  rfl

/-! ### The time -/

lemma Alike.position {s t : DemandStream K G} (h : Alike s t) : t.position = s.position := by
  obtain ⟨x, hx⟩ := h
  unfold DemandStream.position
  cases hf : s.firstDateTimeRequest with
  | true => rfl
  | false =>
    rw [hx hf]

/-- Once a visit has its position, the offset is written. -/
lemma respects_visit : Respects (visitPoissonProcess (K := K) (G := G)) := by
  intro s t h
  rw [visitPoissonProcess_eq, visitPoissonProcess_eq, h.position]
  cases s.position with
  | error e => exact .error h
  | ok x =>
    have hat : t.at_ x = s.at_ x := by
      obtain ⟨y, -⟩ := h
      rfl
    dsimp only
    rw [hat]
    exact Related.refl Alike.refl _

lemma respects_poissonProcess (n : ℕ) : Respects (poissonProcess (K := K) (G := G) n) := by
  induction n with
  | zero => exact fun _ _ h => .error h
  | succ n ih =>
    refine respects_bind respects_visit fun v => ?_
    cases v with
    | stop t => exact respects_pure t
    | accept t r x y => exact respects_pure t
    | cross r x y => exact ih

lemma respects_statisticsOrder :
    Respects (generateTimeOfRequestStatisticsOrder (K := K) (G := G)) := by
  rintro s _ ⟨x, hx⟩
  rw [generateTimeOfRequestStatisticsOrder_eq, generateTimeOfRequestStatisticsOrder_eq]
  have hrem : remaining { s with dateTimeLastRequest := x } = s.remaining := rfl
  have hnext : nextProbability { s with dateTimeLastRequest := x } = s.nextProbability := rfl
  rw [hrem, hnext]
  split_ifs
  · dsimp only
    cases s.demandCharacteristics.arrivalPattern.getValue s.nextProbability with
    | ok d => exact .ok (.mk x hx)
    | error e => exact .error (.mk x hx)
  · exact .error (.mk x hx)

lemma respects_time (m : DemandGenerationMethod) :
    Respects (generateTimeOfRequest (K := K) (G := G) m) := by
  cases m with
  | STA_ORD => exact respects_statisticsOrder
  | POI_PRO =>
    refine respects_get ?_ fun s => respects_poissonProcess _
    rintro s _ ⟨x, -⟩
    rfl

/-- **A request** of streams that behave alike is the same, and they go on to behave alike. -/
theorem respects_next (g : G) (m : DemandGenerationMethod) :
    Respects (generateNextRequest (K := K) g m) := by
  unfold generateNextRequest
  refine respects_bind (respects_categorical _) fun pos => ?_
  refine respects_bind (respects_time m) fun t => ?_
  refine respects_bind (respects_categorical _) fun channel => ?_
  refine respects_bind (respects_categorical _) fun trip => ?_
  refine respects_bind (respects_categorical _) fun stay => ?_
  refine respects_bind (respects_categorical _) fun flyer => ?_
  refine respects_bind (respects_below _) fun change => ?_
  refine respects_bind (respects_below _) fun refund => ?_
  refine respects_bind respects_preferredDepartureTime fun time => ?_
  refine respects_bind respects_valueOfTime fun value => ?_
  refine respects_get ?_ fun s => respects_bind (respects_wtp _ _ _ _) fun w => respects_pure _
  rintro s _ ⟨x, -⟩
  rfl

/-! ### What is seen of a stream -/

/-- What a client sees of a stream: its answers by the two methods, and its counters. -/
structure Answers (K : Type) where
  stillHaving : DemandGenerationMethod → Bool
  numberOfRequestsGeneratedSoFar : ℤ
  cumulativeProbabilitySoFar : K
  totalNumberOfRequestsToBeGenerated : ℤ

def answers (s : DemandStream K G) : Answers K :=
  ⟨s.stillHavingRequestsToBeGenerated,
    s.randomGenerationContext.numberOfRequestsGeneratedSoFar,
    s.randomGenerationContext.cumulativeProbabilitySoFar, s.totalNumberOfRequestsToBeGenerated⟩

lemma Alike.answers {s t : DemandStream K G} (h : Alike s t) : t.answers = s.answers := by
  obtain ⟨x, -⟩ := h
  rfl

/-- A guarded call: what it returned or threw, if a request was asked for, the shared generator
after it, and the stream it left. -/
def guardedCall (m : DemandGenerationMethod) (g : G) (s : DemandStream K G) :
    Option (Except Fault (BookingRequestStruct K)) × G × DemandStream K G :=
  if s.stillHavingRequestsToBeGenerated m then
    match generateNextRequest g m s with
    | .ok (r, g') s' => (some (.ok r), g', s')
    | .error e s' => (some (.error e), g, s')
  else (none, g, s)

/-- A sequence of guarded calls, each with its method and with what happens to the shared generator
before it: what each call gave, and what is seen of the stream after it. -/
def observe : List (DemandGenerationMethod × (G → G)) → G → DemandStream K G →
    List (Option (Except Fault (BookingRequestStruct K)) × G × Answers K)
  | [], _, _ => []
  | (m, f) :: cs, g, s =>
    let (r, g', s') := guardedCall m (f g) s
    (r, g', s'.answers) :: observe cs g' s'

lemma Alike.guardedCall {s t : DemandStream K G} (h : Alike s t) (m : DemandGenerationMethod)
    (g : G) :
    (DemandStream.guardedCall m g t).1 = (DemandStream.guardedCall m g s).1 ∧
      (DemandStream.guardedCall m g t).2.1 = (DemandStream.guardedCall m g s).2.1 ∧
      Alike (DemandStream.guardedCall m g s).2.2 (DemandStream.guardedCall m g t).2.2 := by
  unfold DemandStream.guardedCall
  rw [h.stillHaving m]
  split_ifs
  · have hnext := respects_next g m s t h
    cases hs : generateNextRequest g m s with
    | ok p s' =>
      cases ht : generateNextRequest g m t with
      | ok q t' =>
        rw [hs, ht] at hnext
        cases hnext with
        | ok hst => exact ⟨rfl, rfl, hst⟩
      | error e t' =>
        rw [hs, ht] at hnext
        cases hnext
    | error e s' =>
      cases ht : generateNextRequest g m t with
      | ok q t' =>
        rw [hs, ht] at hnext
        cases hnext
      | error e t' =>
        rw [hs, ht] at hnext
        cases hnext with
        | error hst => exact ⟨rfl, rfl, hst⟩
  · exact ⟨rfl, rfl, h⟩

/-- Streams that behave alike cannot be told apart. -/
lemma Alike.observe {s t : DemandStream K G} (h : Alike s t)
    (cs : List (DemandGenerationMethod × (G → G))) (g : G) :
    DemandStream.observe cs g t = DemandStream.observe cs g s := by
  induction cs generalizing s t g with
  | nil => rfl
  | cons c cs ih =>
    obtain ⟨m, f⟩ := c
    obtain ⟨hr, hg, hst⟩ := h.guardedCall m (f g)
    unfold DemandStream.observe
    dsimp only
    rw [hr, hg, hst.answers, ih hst]

/-! ### Reset -/

/-- A stream made anew with the key, characteristics and distribution of another one and its
private generators, started on the state `g` of the shared generator. `x` is what the memory of
the last offset holds, which no constructor writes. -/
def renewed (s : DemandStream K G) (g : G) (n k : ℕ) (x : K) : DemandStream K G × G :=
  let (t, g') := setAll { make s.key with dateTimeLastRequest := x } s.demandCharacteristics
    s.demandDistribution g n k
  ({ t with
      requestDateTimeRandomGenerator := s.requestDateTimeRandomGenerator
      demandCharacteristicsRandomGenerator := s.demandCharacteristicsRandomGenerator }, g')

lemma alike_renewed (s : DemandStream K G) (g : G) (n k : ℕ) (x : K) :
    Alike (reset s g).1 (renewed s g n k x).1 :=
  .mk x fun h => absurd h Bool.true_eq_false.mp

/-- **Reset gives back a fresh stream**: whatever happened to the stream before, and whatever is
asked of it afterwards, it gives what a new one would. -/
theorem reset_fresh (s : DemandStream K G) (g : G) (n k : ℕ) (x : K)
    (cs : List (DemandGenerationMethod × (G → G))) :
    (reset s g).2 = (renewed s g n k x).2 ∧
      (reset s g).1.answers = (renewed s g n k x).1.answers ∧
      observe cs (reset s g).2 (reset s g).1
        = observe cs (renewed s g n k x).2 (renewed s g n k x).1 :=
  have h := alike_renewed s g n k x
  ⟨rfl, h.answers.symm, (h.observe cs _).symm⟩

end Trademgen.DemandStream
