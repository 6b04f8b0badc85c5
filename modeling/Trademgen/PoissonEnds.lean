import Trademgen.PoissonMass
import Trademgen.PoissonRun
import Trademgen.Session

/-!
The end of the Poisson walks.

What a stream accepts in an interval is one variate further each time. When the variates add up to
more than any bound the walk leaves the interval, and fewer knots are ahead of it: no stream has
requests forever, and neither the main loop nor a session waits for it.
-/

set_option linter.unusedSectionVars false

namespace Trademgen

open Faulting Knots OrderedMap EventQueue DemandManager DemandStream

/-! ### Sums of variates -/

section Law

variable {K G : Type} [Field K] [LinearOrder K] [RandomGeneration K G]

/-- The sum of the next exponential variates of a rate. -/
def exponentialSum (r : K) : ℕ → G → K
  | 0, _ => 0
  | n + 1, g => (RandomGeneration.exponential r g).1
    + exponentialSum r n (RandomGeneration.exponential r g).2

variable (K G) in
/-- The exponential variates of a positive rate add up to more than any bound. -/
def UnboundedExponentialLaw : Prop :=
  ∀ (r : K) (g : G) (b : K), 0 < r → ∃ n, b ≤ exponentialSum r n g

end Law

variable {K G Q : Type} [Field K] [LinearOrder K] [IsStrictOrderedRing K] [FloorRing K] [Libm K]
  [RandomGeneration K G] [EventQueue K Q] {m : DemandGenerationMethod}

/-! ### The walk of a stream -/

namespace DemandStream

variable {s s' : DemandStream K G} {x : K} {i k : ℕ}

/-- The next call of a stream returns, and the calls after it come to an end. -/
def Ends (s : DemandStream K G) : Prop :=
  ∃ vs t s', Call s vs t s' ∧ ∀ g, ∃ rs, Emits .POI_PRO (s'.withCharacteristics g) rs

lemma Ends.emits (h : Ends s) (hfit : Fit G s.demandCharacteristics)
    (hstill : s.stillHavingRequests = true) : ∃ rs, Emits .POI_PRO s rs := by
  obtain ⟨vs, t, s', hcall, hrest⟩ := h
  obtain ⟨x⟩ := hfit.draws s.demandCharacteristicsRandomGenerator
  obtain ⟨w, hw⟩ := exists_wtpAt hfit.frat5 s.key.preferredDepartureDate t
    (variate s.requestDateTimeRandomGenerator 0)
  obtain ⟨rs, hrs⟩ := hrest (advance s.demandCharacteristicsRandomGenerator 9)
  exact ⟨_, .next hstill ⟨_, _, generateNextRequest_eq_ok.mpr
    ⟨t, s', x, w, hcall.generateTimeOfRequest, hw, rfl, rfl, rfl⟩⟩ hrs⟩

lemma Ends.cross {r y : K} (hv : visitPoissonProcess s = .ok (.cross r x y) s') (h : Ends s') :
    Ends s := by
  obtain ⟨vs, t, s'', hcall, hrest⟩ := h
  exact ⟨_, t, s'', .cross hv hcall, hrest⟩

/-- A stream that walks inside an interval before `-1`. -/
structure Within (i : ℕ) (s : DemandStream K G) (x : K) : Prop where
  fit : Fit G s.demandCharacteristics
  size : i + 1 < s.demandCharacteristics.arrivalPattern.size
  last : s.demandCharacteristics.arrivalPattern.v (i + 1) ≤ -1
  rate : 0 < s.rateOf i
  still : s.stillHavingRequests = true
  position : s.position = .ok x
  low : s.demandCharacteristics.arrivalPattern.v i ≤ x
  high : x < s.demandCharacteristics.arrivalPattern.v (i + 1)

/-- **An interval** is left: the variates add up to its length. -/
lemma Within.ends (he : ExponentialLaw K G) (n : ℕ) :
    ∀ {s : DemandStream K G} {x : K}, Within i s x →
      s.demandCharacteristics.arrivalPattern.v (i + 1)
        ≤ x + exponentialSum (s.rateOf i) n s.requestDateTimeRandomGenerator →
      (∀ s', SameBase s s' → s'.stillHavingRequests = true →
        s'.position = .ok (s.demandCharacteristics.arrivalPattern.v (i + 1)) → Ends s') →
      Ends s := by
  induction n with
  | zero =>
    intro s x h hsum _
    rw [exponentialSum, add_zero] at hsum
    exact absurd h.high (not_lt.mpr hsum)
  | succ n ih =>
    intro s x h hsum hknot
    have hx : x ≠ -1 := (h.high.trans_le h.last).ne
    rcases lt_or_ge (x + s.exponentialOf (s.rateOf i))
      (s.demandCharacteristics.arrivalPattern.v (i + 1)) with hsmall | hlarge
    · refine ⟨_, _, _, .accept (visit_accept h.position h.size h.low h.high hx h.rate hsmall),
        fun g => ?_⟩
      set s' := (s.accepted (s.rateOf i) (x + s.exponentialOf (s.rateOf i))).withCharacteristics g
      have hbase : SameBase s s' := ⟨rfl, rfl, rfl, rfl⟩
      have hvariate : 0 ≤ s.exponentialOf (s.rateOf i) := he _ _ h.rate
      have hafter : Within i s' (x + s.exponentialOf (s.rateOf i)) :=
        ⟨h.fit, h.size, h.last, h.rate, h.still, rfl, h.low.trans (le_add_of_nonneg_right hvariate),
          hsmall⟩
      rw [exponentialSum, ← add_assoc] at hsum
      exact (ih hafter hsum fun s'' hbase' => hknot s'' (hbase.trans hbase')).emits h.fit h.still
    · exact .cross (visit_cross h.position h.size h.low h.high hx h.rate hlarge)
        (hknot _ ⟨rfl, rfl, rfl, rfl⟩ h.still rfl)

/-- **A walk** ends, if the variates add up. -/
lemma OnWay.ends (he : ExponentialLaw K G) (hb : UnboundedExponentialLaw K G) (h : OnWay k s)
    (hfit : Fit G s.demandCharacteristics) (hstill : s.stillHavingRequests = true) : Ends s := by
  obtain ⟨x, hx, h0, h1⟩ := h.position
  induction hm : s.demandCharacteristics.arrivalPattern.knotsAhead x using Nat.strong_induction_on
    generalizing s x with
  | _ m ih =>
    subst hm
    rcases h1.eq_or_lt with rfl | h1
    · exact ⟨_, _, _, .stop (visit_stop hx), fun g => ⟨[], .stop rfl⟩⟩
    · obtain ⟨i, hi, hxi, hxi', hle, hc⟩ := h.leads.exists_interval h0 h1
      have hr : 0 < s.rateOf i := mul_pos (slopeOf_pos (hxi.trans_lt hxi') hc) h.mean_pos
      obtain ⟨n, hn⟩ := hb (s.rateOf i) s.requestDateTimeRandomGenerator
        (s.demandCharacteristics.arrivalPattern.v (i + 1) - x) hr
      refine Within.ends he n ⟨hfit, hi, hle, hr, hstill, hx, hxi, hxi'⟩
        (sub_le_iff_le_add'.mp hn) fun s' hbase hstill' hp => ?_
      have hlt := ContinuousAttributeLite.knotsAhead_lt hi hxi' hle
      have h0' := h0.trans hxi'.le
      have hleads := h.leads
      have hmean := h.mean_pos
      rw [← hbase.characteristics] at hfit hlt h0' hle hp hleads
      rw [← hbase.distribution] at hmean
      rw [← hbase.characteristics] at ih
      exact ih _ hlt ⟨hleads, hmean, _, hp, h0', hle⟩ hfit hstill' _ hp h0' hle rfl

/-- The requests of a walk: all of them are punctual but the last, which is dated one day and a
millisecond after the departure. -/
lemma OnWay.terminated (he : ExponentialLaw K G) {rs : List (BookingRequestStruct K)}
    (hrs : Emits .POI_PRO s rs) (h : OnWay k s) (hstill : s.stillHavingRequests = true) :
    ∃ last, rs = rs.takeWhile isBeforeDeparture ++ [last] ∧
      last.requestDateTime = s.terminator := by
  induction hrs with
  | @stop s hdone =>
    have hdone' : s.stillHavingRequests = false := hdone
    rw [hstill] at hdone'
    cases hdone'
  | @next s s' r rs _ hr hrest ih =>
    obtain ⟨g, g', hr⟩ := hr
    obtain ⟨t, s₁, d, w, ht, -, rfl, -, rfl⟩ := DemandStream.generateNextRequest_eq_ok.mp hr
    obtain ⟨vs, hcall⟩ := generateTimeOfRequestPoissonProcess_eq_ok.mp ht
    obtain ⟨x, hx, -, -⟩ := h.position
    obtain ⟨hout, hway⟩ := h.outcome he hx hcall
    cases hout with
    | stopped _ _ hstill' _ _ =>
      -- The walk is over: the request is the last one, and it comes too late.
      cases hrest with
      | next hstill'' => exact absurd (hstill''.symm.trans hstill') (by simp)
      | stop =>
        refine ⟨(requestOf s s.terminator d w).withoutWTP, ?_, rfl⟩
        rw [List.takeWhile_cons_of_neg, List.nil_append]
        rw [isBeforeDeparture_withoutWTP, Bool.not_eq_true]
        exact isBeforeDeparture_of_gt (lt_date_terminator s)
    | accepted y _ _ _ hy hstill' _ _ =>
      obtain ⟨last, hlast, htime⟩ := ih ⟨hway.leads, hway.mean_pos, hway.position⟩
        (hstill'.trans hstill)
      refine ⟨last, ?_, ?_⟩
      · rw [List.takeWhile_cons_of_pos, List.cons_append, ← hlast]
        rw [isBeforeDeparture_withoutWTP]
        exact isBeforeDeparture_of_lt (date_lt_of_accepted s hy)
      · rw [htime]
        exact congrArg (· + convertFloatIntoDuration (1 : K)) hcall.sameBase.departureDateTime

end DemandStream

/-- **Every stream** that no draw fails for has a list of requests to generate, by either method. -/
lemma Exhaustible.of_unbounded (he : ExponentialLaw K G)
    (hb : m = .POI_PRO → UnboundedExponentialLaw K G) : Exhaustible G m := by
  cases m with
  | STA_ORD => exact .statisticsOrder he
  | POI_PRO =>
    intro s h hr
    cases hstill : s.stillHavingRequests with
    | false => exact ⟨[], .stop hstill⟩
    | true =>
      obtain ⟨k, hleads⟩ := h.leads rfl
      have hway := hr.onWay he hleads (h.nonneg rfl) (h.mean_pos rfl)
      exact (hway.ends he (hb rfl) h.fit hstill).emits h.fit hstill

/-! ### The service -/

section Service

variable [EventManagerReset Q] {w w' : World K G Q}

/-- The streams of a batch by a method: started under their keys, no draw of them fails. -/
structure Equipped (m : DemandGenerationMethod) (w : World K G Q) : Prop where
  nodup : w.demandStreamList.Nodup
  key : ∀ key ∈ w.demandStreamList, (w.demandStream key).key = key
  started : ∀ key ∈ w.demandStreamList, (w.demandStream key).Started
  stream : ∀ key ∈ w.demandStreamList, (w.demandStream key).Serviceable m
  empty : contents w.queue = 0

lemma Equipped.batchable (hends : Exhaustible G m) (h : Equipped m w) : Batchable m w :=
  ⟨h.nodup, h.key, h.started, fun key hkey _ hrow hs =>
    hends _ ((h.stream key hkey).sameRow hrow) (.started hs), h.empty⟩

lemma Equipped.of_batchable (h : Equipped m w) (hsame : SameStreams w w') (h' : Batchable m w') :
    Equipped m w' :=
  ⟨h'.nodup, h'.key, h'.started, fun key hkey =>
    (h.stream key (hsame.list ▸ hkey)).sameRow (hsame.row key), h'.empty⟩

lemma Equipped.onWay (h : Equipped .POI_PRO w) {key : DemandStreamKey}
    (hkey : key ∈ w.demandStreamList) : ∃ k, OnWay k (w.demandStream key) := by
  have hstream := h.stream key hkey
  obtain ⟨k, hleads⟩ := hstream.leads rfl
  exact ⟨k, .of_first hleads (hstream.nonneg rfl) (hstream.mean_pos rfl)
    (h.started key hkey).fresh.first⟩

/-- **Sessions end**, by either method and whatever is typed, on streams that no draw fails for. -/
theorem session_ends [DateFormat] [EventDisplay K Q] (hq : EventQueueLaw K Q)
    (he : ExponentialLaw K G) (hb : m = .POI_PRO → UnboundedExponentialLaw K G)
    (h : w.Serviceable m) (d : String) (lines : List Shell.Line) :
    ∃ j replies w', StillServiceable m w w' ∧
      ∀ n ≥ j, Shell.session m n d lines w = .ok replies w' :=
  World.Serviceable.session_ok hq he (.of_unbounded he hb) d lines h

end Service

section Real

variable {G Q : Type} [RandomGeneration ℝ G] [EventQueue ℝ Q] [EventManagerReset Q]

/-- A generator whose variates are all the mean of their law. -/
inductive Metronome
  | tick

noncomputable instance : RandomGeneration ℝ Metronome where
  init _ := .tick
  uniform g := (1 / 2, g)
  exponential r g := (1 / r, g)
  normal mean _ g := (mean, g)

lemma Metronome.uniformLaw : UniformLaw ℝ Metronome := by
  intro g
  change (0 : ℝ) ≤ 1 / 2 ∧ (1 : ℝ) / 2 < 1
  norm_num

lemma Metronome.exponentialLaw : ExponentialLaw ℝ Metronome := fun _ _ hr => (one_div_pos.mpr hr).le

lemma Metronome.exponentialSum_eq (r : ℝ) (n : ℕ) (g : Metronome) :
    exponentialSum r n g = n * (1 / r) := by
  induction n with
  | zero => simp [exponentialSum]
  | succ n ih =>
    change 1 / r + exponentialSum r n g = _
    rw [ih]
    push_cast
    ring

lemma Metronome.unboundedLaw : UnboundedExponentialLaw ℝ Metronome := by
  intro r g b hr
  obtain ⟨n, hn⟩ := exists_nat_ge (b * r)
  refine ⟨n, ?_⟩
  rw [exponentialSum_eq, mul_one_div, le_div_iff₀ hr]
  exact hn

/-- One stream with a mean of two requests, whose walk ends the day before departure. -/
noncomputable def walkSample : World ℝ Metronome (SortedQueue ℝ) :=
  .single ((DemandStream.make sampleKey).setAll (sampleCharacteristics [(-30, 0), (-1, 1)] 36000)
    ⟨2, 0⟩ .tick 0 0).1 .tick

lemma walkSample_equipped : Equipped .POI_PRO walkSample := by
  have hrises := ContinuousAttributeLite.rises_pair (show (-30 : ℝ) < -1 by norm_num)
  obtain ⟨hsize, -, hv1, -⟩ :=
    ContinuousAttributeLite.init_pair (show (-30 : ℝ) < -1 by norm_num) 0 1
  refine ⟨List.nodup_singleton _, fun key hkey => (List.mem_singleton.mp hkey).symm,
    fun key _ => .setAll _ _ _ .tick _ _, fun key _ => ⟨⟨hrises.pos, ?_, fun g => ?_⟩, fun _ => ?_,
      fun _ => hrises.nonneg, fun _ => two_pos⟩, rfl⟩
  · exact List.length_pos_of_ne_nil (OMap.ofPairs_pairs_ne_nil (by simp))
  · exact ⟨sampleDraws Metronome.uniformLaw g⟩
  · exact ⟨1, hrises.leads (by omega) hv1⟩

theorem session_ends_sample : ∃ n replies w',
    Shell.session .POI_PRO n "" [keyLineSample "generate_all_br"] walkSample = .ok replies w' := by
  have hequipped := walkSample_equipped
  obtain ⟨j, replies, w', -, hall⟩ := session_ends SortedQueue.law Metronome.exponentialLaw
    (fun _ => Metronome.unboundedLaw)
    ⟨fun key hkey => .started (hequipped.started key hkey), hequipped.stream⟩ ""
    [keyLineSample "generate_all_br"]
  exact ⟨j, replies, w', hall j le_rfl⟩

end Real

end Trademgen
