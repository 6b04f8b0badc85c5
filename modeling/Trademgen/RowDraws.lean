import Trademgen.Categorical
import Trademgen.DemandStreamSpec
import Trademgen.RowKnots

/-!
The categorical draws of the streams that a row creates.

The grammar takes any shares that are not negative, and nothing asks for their sum; the lookup
fails past it.
-/

set_option linter.unusedSectionVars false

namespace Trademgen

open Spirit Spirit.Grammar OrderedMap DemandStream DemandManager

variable {K G Q : Type} [Field K] [LinearOrder K] [FloorRing K] [Libm K] [RandomGeneration K G]
  [EventQueue K Q]

/-! ### One draw -/

/-- A stream, with other generators. -/
def DemandStream.withVariates {H : Type} (t : DemandStream K G) (g : H) : DemandStream K H where
  key := t.key
  demandCharacteristics := t.demandCharacteristics
  demandDistribution := t.demandDistribution
  totalNumberOfRequestsToBeGenerated := t.totalNumberOfRequestsToBeGenerated
  randomGenerationContext := t.randomGenerationContext
  requestDateTimeRandomGenerator := g
  demandCharacteristicsRandomGenerator := g
  stillHavingRequests := t.stillHavingRequests
  firstDateTimeRequest := t.firstDateTimeRequest
  dateTimeLastRequest := t.dateTimeLastRequest

/-- Whatever the generator of the stream is, and whatever variate it comes up with, the draw
returns a value listed with a positive share. -/
def DrawsListed {T : Type} (draw : ∀ (H : Type) [RandomGeneration K H],
    EStateM Fault (DemandStream K H) T) (t : DemandStream K G) (l : List (T × Amount K)) : Prop :=
  ∀ (H : Type) [RandomGeneration K H] (g : H), 0 ≤ variate g 0 → variate g 0 < 1 →
    ∃ x share t', draw H (t.withVariates g) = .ok x t' ∧ (x, share) ∈ l ∧ 0 < share.1

/-- The shares sum to one at least. -/
def CoversAll {T : Type} (l : List (T × Amount K)) : Prop := 1 ≤ (l.map fun p => p.2.1).sum

section Draw

variable [IsStrictOrderedRing K] {T : Type} [LinearOrder T] {t : DemandStream K G} {m : OMap T K}
  {l : List (T × Amount K)}

lemma generateCategorical_withVariates {H : Type} [RandomGeneration K H]
    (table : DemandCharacteristics K → CategoricalAttributeLite T K) (g : H) :
    generateCategorical table (t.withVariates g) =
      lookup ((table t.demandCharacteristics).getValue (variate g 0))
        ((t.withVariates g).withCharacteristics (advance g 1)) := rfl

lemma nonneg_of_pairs (hm : m.pairs.Perm (l.map fun p => (p.1, p.2.1))) :
    ∀ e ∈ m.pairs, 0 ≤ e.2 := by
  intro e he
  obtain ⟨p, -, rfl⟩ := List.mem_map.mp (hm.mem_iff.mp he)
  exact p.2.2

lemma sum_of_pairs (hm : m.pairs.Perm (l.map fun p => (p.1, p.2.1))) :
    (m.pairs.map Prod.snd).sum = (l.map fun p => p.2.1).sum := by
  rw [(hm.map Prod.snd).sum_eq, List.map_map]
  rfl

/-- A variate past the sum of the shares is not looked up. -/
lemma draw_fails {table : DemandCharacteristics K → CategoricalAttributeLite T K}
    (ht : table t.demandCharacteristics = .init m)
    (hm : m.pairs.Perm (l.map fun p => (p.1, p.2.1))) {H : Type} [RandomGeneration K H] {g : H}
    (h : (l.map fun p => p.2.1).sum < variate g 0) :
    ∃ t', generateCategorical table (t.withVariates g) = .error .indexOutOfRange t' := by
  refine ⟨(t.withVariates g).withCharacteristics (advance g 1), ?_⟩
  have hpast : CategoricalAttributeLite.massUpTo m.pairs
      (CategoricalAttributeLite.entries m.pairs).length < variate g 0 := by
    rwa [CategoricalAttributeLite.massUpTo_entries (nonneg_of_pairs hm), sum_of_pairs hm]
  rw [generateCategorical_withVariates, ht,
    (CategoricalAttributeLite.getValue_init_error_iff m _).mpr (Or.inr hpast)]
  rfl

/-- **One draw** of a table made from the pairs of a field. -/
lemma drawsListed_iff (table : DemandCharacteristics K → CategoricalAttributeLite T K)
    (ht : table t.demandCharacteristics = .init m)
    (hm : m.pairs.Perm (l.map fun p => (p.1, p.2.1))) :
    DrawsListed (fun _ _ => generateCategorical table) t l ↔ CoversAll l := by
  rw [CoversAll, ← sum_of_pairs hm,
    ← CategoricalAttributeLite.getValue_every_iff m (nonneg_of_pairs hm)]
  refine ⟨fun h u h0 h1 => ?_, fun h H _ g h0 h1 => ?_⟩
  · obtain ⟨x, share, t', hx, hmem, hpos⟩ := h (Tape K) (.const u 1 0 ⟨h0, h1⟩ Tape.one_pos) h0 h1
    have hlookup := (generateCategorical_withVariates table _).symm.trans hx
    rw [ht] at hlookup
    exact ⟨x, share.1, (lookup_eq_ok.mp hlookup).1,
      hm.mem_iff.mpr (List.mem_map.mpr ⟨_, hmem, rfl⟩), hpos⟩
  · obtain ⟨x, mass, hx, hmem, hpos⟩ := h _ h0 h1
    obtain ⟨p, hp, heq⟩ := List.mem_map.mp (hm.mem_iff.mp hmem)
    cases heq
    refine ⟨p.1, p.2, (t.withVariates g).withCharacteristics (advance g 1), ?_, hp, hpos⟩
    refine (generateCategorical_withVariates table g).trans ?_
    rw [ht]
    exact lookup_eq_ok.mpr ⟨hx, rfl⟩

end Draw

/-! ### The streams of a row -/

/-- None of the five draws of a stream can fail, and each returns what its field lists. -/
structure DemandStream.Safe (t : DemandStream K G) (R : Row K) : Prop where
  generatePOS : DrawsListed (fun _ _ => generatePOS) t R.posDist
  generateChannel : DrawsListed (fun _ _ => generateChannel) t R.channelDist
  generateTripType : DrawsListed (fun _ _ => generateTripType) t R.tripDist
  generateStayDuration : DrawsListed (fun _ _ => generateStayDuration) t R.stayDist
  generateFrequentFlyer : DrawsListed (fun _ _ => generateFrequentFlyer) t R.ffDist

/-- The shares of each of the five fields sum to one at least. -/
structure Row.CoversAll (R : Row K) : Prop where
  posDist : Trademgen.CoversAll R.posDist
  channelDist : Trademgen.CoversAll R.channelDist
  tripDist : Trademgen.CoversAll R.tripDist
  stayDist : Trademgen.CoversAll R.stayDist
  ffDist : Trademgen.CoversAll R.ffDist

/-- A date of the range of the row is on one of its active days. -/
def Row.HasActiveDate (R : Row K) : Prop :=
  ∃ lStart lEnd x : Date, R.prefDepDateStart.getDate = .ok lStart ∧
    R.prefDepDateEnd.getDate = .ok lEnd ∧ lStart ≤ x ∧ x ≤ lEnd ∧
    (DoWStruct.mk (R.dow.toList.map (· = '1'))).getStandardDayOfWeek (dayOfWeek x) = true

/-- The keys of the streams added between two worlds. -/
def createdKeys (w w' : World K G Q) : List DemandStreamKey :=
  w'.demandStreamList.drop w.demandStreamList.length

section Streams

variable {d : DemandStruct K} {w w' : World K G Q}

lemma mem_createdKeys (h : creates d w w') {key : DemandStreamKey} :
    key ∈ createdKeys w w' ↔ ∃ x : ℤ, d.keyAt x = key ∧ d.dateRange.begin_ ≤ x ∧
      x < d.dateRange.end_ ∧ d.isActive x = true := by
  have hrange := creates_range h
  obtain ⟨w₁, hw₁, hcreated⟩ := exists_creates hrange w
  unfold creates at h hw₁
  obtain rfl : w' = w₁ := (EStateM.Result.ok.inj (h.symm.trans hw₁)).2
  rw [createdKeys, hcreated.streams, List.drop_left, List.mem_map]
  refine exists_congr fun x => ?_
  rw [DemandStruct.mem_activeDates, Int.toNat_of_nonneg (sub_nonneg.mpr hrange),
    add_sub_cancel]
  tauto

/-- **A stream** that is created has the characteristics of its row. -/
lemma characteristics_of_mem_createdKeys (h : creates d w w') {key : DemandStreamKey}
    (hkey : key ∈ createdKeys w w') :
    (w'.demandStream key).demandCharacteristics = characteristicsOf d := by
  obtain ⟨x, rfl, hbegin, hend, hactive⟩ := (mem_createdKeys h).mp hkey
  exact iterateDates_characteristics _ _ x w w' h hbegin hend hactive

end Streams

section Row

variable [IsStrictOrderedRing K] {text rest : List Char} {s s' : ParserState K G Q} {v : Value K}
  {R : Row K} {d : DemandStruct K}

/-- The streams of a row are safe when its shares cover all variates. -/
lemma HandsOver.safe_iff (hs : RowStart s) (hd : HandsOver text s s' R d) {key : DemandStreamKey}
    (hkey : key ∈ createdKeys s.world s'.world) :
    (s'.world.demandStream key).Safe R ↔ R.CoversAll := by
  obtain ⟨hpos, hchannel, htrip, hstay, hff⟩ := Row.describe_pairs (hd.describe hs)
  have hc := characteristics_of_mem_createdKeys hd.handed hkey
  have hpos' := drawsListed_iff (t := s'.world.demandStream key) (·.posProbabilityMass)
    (by rw [hc]; rfl) hpos
  have hchannel' := drawsListed_iff (t := s'.world.demandStream key) (·.channelProbabilityMass)
    (by rw [hc]; rfl) hchannel
  have htrip' := drawsListed_iff (t := s'.world.demandStream key) (·.tripTypeProbabilityMass)
    (by rw [hc]; rfl) htrip
  have hstay' := drawsListed_iff (t := s'.world.demandStream key) (·.stayDurationProbabilityMass)
    (by rw [hc]; rfl) hstay
  have hff' := drawsListed_iff (t := s'.world.demandStream key) (·.frequentFlyerProbabilityMass)
    (by rw [hc]; rfl) hff
  refine ⟨fun ⟨h₁, h₂, h₃, h₄, h₅⟩ => ?_, fun ⟨h₁, h₂, h₃, h₄, h₅⟩ => ?_⟩
  · exact ⟨hpos'.mp h₁, hchannel'.mp h₂, htrip'.mp h₃, hstay'.mp h₄, hff'.mp h₅⟩
  · exact ⟨hpos'.mpr h₁, hchannel'.mpr h₂, htrip'.mpr h₃, hstay'.mpr h₄, hff'.mpr h₅⟩

lemma HandsOver.hasActiveDate_iff (hs : RowStart s) (hd : HandsOver text s s' R d) :
    R.HasActiveDate ↔ ∃ key, key ∈ createdKeys s.world s'.world := by
  obtain ⟨⟨lStart, lEnd, hstart, hend, hrange⟩, -, -, -, -, -, hdow, -⟩ :=
    Row.describe_eq_ok (hd.describe hs)
  change d.dateRange = _ at hrange
  change d.dow = _ at hdow
  refine ⟨fun ⟨lStart', lEnd', x, hstart', hend', hle, hle', hactive⟩ => ?_, fun ⟨key, hkey⟩ => ?_⟩
  · cases hstart.symm.trans hstart'
    cases hend.symm.trans hend'
    refine ⟨d.keyAt x, (mem_createdKeys hd.handed).mpr ⟨x, rfl, ?_, ?_, ?_⟩⟩
    · rw [hrange]
      exact hle
    · rw [hrange]
      exact Int.lt_add_one_iff.mpr hle'
    · rw [DemandStruct.isActive, hdow]
      exact hactive
  · obtain ⟨x, -, hle, hlt, hactive⟩ := (mem_createdKeys hd.handed).mp hkey
    rw [hrange] at hle hlt
    rw [DemandStruct.isActive, hdow] at hactive
    exact ⟨lStart, lEnd, x, hstart, hend, hle, Int.lt_add_one_iff.mp hlt, hactive⟩

/-- **The draws** of the streams of a row that is accepted cannot fail when the shares of each field
cover all variates, or no date of its range is on an active day; and only then. -/
theorem drawsCannotFail_iff (hs : RowStart s)
    (h : parse perform demand skipBlanks text s = .hit v rest s') :
    (∃ (R : Row K) (d : DemandStruct K), HandsOver text s s' R d) ∧
    ∀ (R : Row K) (d : DemandStruct K), HandsOver text s s' R d →
      ((∀ key ∈ createdKeys s.world s'.world, (s'.world.demandStream key).Safe R) ↔
        (R.HasActiveDate → R.CoversAll)) := by
  refine ⟨exists_handsOver h, fun R d hd => ⟨fun hsafe hactive => ?_, fun hcovers key hkey => ?_⟩⟩
  · obtain ⟨key, hkey⟩ := (hd.hasActiveDate_iff hs).mp hactive
    exact (hd.safe_iff hs hkey).mp (hsafe key hkey)
  · exact (hd.safe_iff hs hkey).mpr (hcovers ((hd.hasActiveDate_iff hs).mpr ⟨key, hkey⟩))

end Row

section Real

/-- The keys of the streams after a match. -/
def keysAfter : Result K ParserFailure (ParserState K G Q) → List DemandStreamKey
  | .hit _ _ s => s.world.demandStreamList
  | _ => []

/-- A row whose shares of the channels sum to a fifth. -/
def fifthSample : List Char :=
  ("2010-02-08;2010-02-08;1111111;SIN;BKK;M;SIN:1;IN:0.2;RO:1;7:1;G:1;0;1;0;1;"
    ++ "6:1;900;15:1;330:1;N,1,1;").toList

theorem drawsCannotFail_iff_sample :
    ∃ (v : Value ℝ) (s' : ParserState ℝ (Tape ℝ) (SortedQueue ℝ)),
      parse perform demand skipBlanks secondRowSample startSample = .hit v [] s' ∧
      createdKeys startSample.world s'.world = [⟨"SIN", "HND", dayNumber 2010 3 9, "M"⟩] ∧
      ∃ (R : Row ℝ) (d : DemandStruct ℝ), HandsOver secondRowSample startSample s' R d ∧
        ((∀ key ∈ createdKeys startSample.world s'.world, (s'.world.demandStream key).Safe R) ↔
          (R.HasActiveDate → R.CoversAll)) := by
  obtain ⟨v, s', h⟩ := matchesAll_iff.mp (show matchesAll
    (parse perform demand skipBlanks secondRowSample startSample) = true by decide +kernel)
  have hkeys : keysAfter (parse perform demand skipBlanks secondRowSample startSample)
      = [⟨"SIN", "HND", dayNumber 2010 3 9, "M"⟩] := by decide +kernel
  rw [h] at hkeys
  obtain ⟨⟨R, d, hd⟩, hall⟩ := drawsCannotFail_iff rowStart_startSample h
  exact ⟨v, s', h, hkeys, R, d, hd, hall R d hd⟩

/-- The channel of the stream of the sample row cannot be drawn with a variate of one half. -/
theorem drawFails :
    ∃ (v : Value ℝ) (s' : ParserState ℝ (Tape ℝ) (SortedQueue ℝ)) (R : Row ℝ) (d : DemandStruct ℝ),
      parse perform demand skipBlanks fifthSample startSample = .hit v [] s' ∧
      HandsOver fifthSample startSample s' R d ∧
      ∃ key ∈ createdKeys startSample.world s'.world,
        (∃ t', generateChannel ((s'.world.demandStream key).withVariates
          (Tape.const (1 / 2 : ℝ) 1 0 ⟨by norm_num, by norm_num⟩ Tape.one_pos))
            = .error .indexOutOfRange t') ∧
        ¬ (s'.world.demandStream key).Safe R := by
  obtain ⟨v, s', h⟩ := matchesAll_iff.mp (show matchesAll
    (parse perform demand skipBlanks fifthSample startSample) = true by decide +kernel)
  have hkeys : keysAfter (parse perform demand skipBlanks fifthSample startSample)
      = [⟨"SIN", "BKK", dayNumber 2010 2 8, "M"⟩] := by decide +kernel
  rw [h] at hkeys
  have hkey : (⟨"SIN", "BKK", dayNumber 2010 2 8, "M"⟩ : DemandStreamKey) ∈
      createdKeys startSample.world s'.world := by
    rw [show createdKeys startSample.world s'.world = _ from hkeys]
    exact List.mem_singleton_self _
  obtain ⟨R, d, hd⟩ := exists_handsOver h
  have hrational : amountsIn ℚ .storeChannelProbMass fifthSample = some [1 / 5] := by
    decide +kernel
  have hshares : R.channelDist.map (fun p => p.2.1) = [1 / 5] := by
    simpa [amounts_storeChannelProbMass] using hd.amounts_eq hrational
  obtain ⟨-, hchannel, -⟩ := Row.describe_pairs (hd.describe rowStart_startSample)
  refine ⟨v, s', R, d, h, hd, _, hkey, ?_, fun hsafe => ?_⟩
  · have hc := characteristics_of_mem_createdKeys hd.handed hkey
    refine draw_fails (by rw [hc]; rfl) hchannel ?_
    rw [hshares, List.sum_singleton]
    change (1 / 5 : ℝ) < 1 / 2
    norm_num
  · have hcovers := ((hd.safe_iff rowStart_startSample hkey).mp hsafe).channelDist
    rw [Trademgen.CoversAll, hshares] at hcovers
    norm_num at hcovers

end Real

end Trademgen
