import Trademgen.AcceptedRow

/-!
The knots of the continuous distributions of a row.

A pair is inserted into its map without a test, so that a pair with the place of an earlier one is
lost; and the days to departure, read as a real number, are truncated on their way.
-/

set_option linter.unusedSectionVars false

namespace Trademgen

open Spirit Spirit.Grammar OrderedMap

variable {K G Q : Type} [Field K] [LinearOrder K] [FloorRing K] [Libm K] [RandomGeneration K G]
  [EventQueue K Q]

/-! ### What is written and what is handed over -/

/-- A row that the parser takes from one state to another: what is written in it, and what is
handed to `createDemandCharacteristics`. -/
structure HandsOver (text : List Char) (s s' : ParserState K G Q) (R : Row K)
    (d : DemandStruct K) : Prop where
  written : ∃ v r, Reads datum demandFields skipBlanks text v r R.events
  staged : ∃ v r, parse perform demandFields skipBlanks text s = .hit v r { s with demand := d }
  handed : creates d s.world s'.world

/-- One knot for each pair, where it is written and with its probability. -/
structure KnotForKnot (R : Row K) (d : DemandStruct K) : Prop where
  prefDepTimeProbDist : d.prefDepTimeProbDist.pairs.Perm R.prefDepTimeKnots
  timeValueProbDist : d.timeValueProbDist.pairs.Perm R.timeValueKnots
  dtdProbDist : d.dtdProbDist.pairs.Perm R.dtdKnots

/-- The days to departure are whole, in the range of an `unsigned int`. -/
def Row.WholeDays (R : Row K) : Prop :=
  ∀ p ∈ R.dtdDist, ∃ n : ℕ, n < 4294967296 ∧ p.1.1 = (n : K)

/-- No two pairs of a distribution are at the same place. -/
structure Row.Separate (R : Row K) : Prop where
  prefDepTimeDist : (R.prefDepTimeDist.map fun p => p.1.toSeconds).Nodup
  timeValueDist : (R.timeValueDist.map fun p => p.1).Nodup
  dtdDist : (R.dtdDist.map fun p => p.1).Nodup

section Row

variable [IsStrictOrderedRing K] {text rest : List Char} {s s' : ParserState K G Q} {v : Value K}
  {R : Row K} {d : DemandStruct K}

lemma HandsOver.fill (h : HandsOver text s s' R d) : fill R.events s.demand = .ok d := by
  obtain ⟨v, r, hwritten⟩ := h.written
  obtain ⟨v', r', hstaged⟩ := h.staged
  obtain ⟨R', d', hreads, hfill, hd⟩ := parse_demandFields_iff.mp hstaged
  obtain rfl : d = d' := congrArg ParserState.demand hd
  have hevents : R.events = R'.events := (Result.hit.inj (hwritten.symm.trans hreads)).2.2
  rw [hevents]
  exact hfill

lemma HandsOver.describe (h : HandsOver text s s' R d) (hs : RowStart s) :
    R.describe = .ok d.description :=
  (fill_ok hs.clean h.fill).1

/-- A row that is accepted hands something over. -/
lemma exists_handsOver (h : parse perform demand skipBlanks text s = .hit v rest s') :
    ∃ R d, HandsOver text s s' R d := by
  obtain ⟨R, d, w', v₁, r, hreads, -, hfill, hw, -, rfl⟩ := parse_demand_iff.mp h
  exact ⟨R, d, ⟨v₁, r, hreads⟩,
    ⟨v₁, r, parse_demandFields_iff.mpr ⟨R, d, hreads, hfill, rfl⟩⟩, hw⟩

/-- The amounts of the row are those of its text. -/
lemma HandsOver.amounts_eq (h : HandsOver text s s' R d) {a : Action} {xs : List ℚ}
    (ha : amountsIn ℚ a text = some xs) : amounts a R.events = xs.map Rat.cast := by
  obtain ⟨v, r, hread⟩ := h.written
  exact Option.some.inj ((amountsIn_eq hread a).symm.trans (amountsIn_cast ha))

/-! ### Knots -/

lemma prefDepTimeKnots_perm_iff : (OMap.ofPairs R.prefDepTimeKnots).pairs.Perm R.prefDepTimeKnots ↔
    (R.prefDepTimeDist.map fun p => p.1.toSeconds).Nodup := by
  rw [OMap.ofPairs_perm_iff, Row.prefDepTimeKnots, List.map_map]
  rfl

lemma timeValueKnots_perm_iff : (OMap.ofPairs R.timeValueKnots).pairs.Perm R.timeValueKnots ↔
    (R.timeValueDist.map fun p => p.1).Nodup := by
  have hmap : R.timeValueKnots.map Prod.fst
      = (R.timeValueDist.map fun p => p.1).map Subtype.val := by
    rw [Row.timeValueKnots, List.map_map, List.map_map]
    rfl
  rw [OMap.ofPairs_perm_iff, hmap, List.nodup_map_iff Subtype.val_injective]

lemma wholeDays_lt (x : K) : wholeDays x < 4294967296 := Nat.mod_lt _ (by norm_num)

lemma wholeDays_natCast {n : ℕ} (h : n < 4294967296) : wholeDays (n : K) = n := by
  change ⌊(n : K)⌋.toNat % 4294967296 = n
  rw [Int.floor_natCast, Int.toNat_natCast, Nat.mod_eq_of_lt h]

/-- The knots are stored where they are written when the days are whole, and only then. -/
lemma wholeDtdKnots_eq (h : R.WholeDays) : R.wholeDtdKnots = R.dtdKnots := by
  refine List.map_congr_left fun p hp => ?_
  obtain ⟨n, hn, heq⟩ := h p hp
  rw [heq, wholeDays_natCast hn]

lemma dtdKnots_perm_iff : (OMap.ofPairs R.wholeDtdKnots).pairs.Perm R.dtdKnots ↔
    (R.dtdDist.map fun p => p.1).Nodup ∧ R.WholeDays := by
  have hmap : R.dtdKnots.map Prod.fst
      = (R.dtdDist.map fun p => p.1).map fun x => -x.1 := by
    rw [Row.dtdKnots, List.map_map, List.map_map]
    rfl
  have hinj : Function.Injective fun x : Amount K => -x.1 :=
    neg_injective.comp Subtype.val_injective
  refine ⟨fun h => ⟨?_, fun p hp => ?_⟩, fun ⟨hnd, hwhole⟩ => ?_⟩
  · have hnd := (h.map Prod.fst).nodup (OMap.keys_nodup _)
    rwa [hmap, List.nodup_map_iff hinj] at hnd
  -- The knot of the pair is the knot of some pair as stored.
  · have hknot : (-p.1.1, p.2.1) ∈ R.dtdKnots := List.mem_map.mpr ⟨p, hp, rfl⟩
    have hkey : -p.1.1 ∈ (OMap.ofPairs R.wholeDtdKnots).keys :=
      List.mem_map.mpr ⟨_, h.mem_iff.mpr hknot, rfl⟩
    obtain ⟨q, hq, hqp⟩ := OMap.mem_ofPairs_keys hkey
    obtain ⟨x, -, rfl⟩ := List.mem_map.mp hq
    exact ⟨wholeDays x.1.1, wholeDays_lt _, (neg_injective hqp).symm⟩
  · rw [wholeDtdKnots_eq hwhole, OMap.ofPairs_perm_iff, hmap, List.nodup_map_iff hinj]
    exact hnd

/-- **Knot for knot.** The maps of a row that is accepted hold the pairs written in it when no two
pairs of a distribution are at the same place and the days to departure are whole, and only
then. -/
theorem knotForKnot_iff (hs : RowStart s)
    (h : parse perform demand skipBlanks text s = .hit v rest s') :
    (∃ (R : Row K) (d : DemandStruct K), HandsOver text s s' R d) ∧
    ∀ (R : Row K) (d : DemandStruct K), HandsOver text s s' R d →
      (KnotForKnot R d ↔ R.Separate ∧ R.WholeDays) := by
  refine ⟨exists_handsOver h, fun R d hd => ?_⟩
  obtain ⟨-, -, -, -, -, -, -, htime, hvalue, hdtd⟩ := Row.describe_eq_ok (hd.describe hs)
  change d.prefDepTimeProbDist = _ at htime
  change d.timeValueProbDist = _ at hvalue
  change d.dtdProbDist = _ at hdtd
  refine ⟨fun ⟨h₁, h₂, h₃⟩ => ?_, fun ⟨⟨h₁, h₂, h₃⟩, hwhole⟩ => ?_⟩
  · rw [htime, prefDepTimeKnots_perm_iff] at h₁
    rw [hvalue, timeValueKnots_perm_iff] at h₂
    rw [hdtd, dtdKnots_perm_iff] at h₃
    exact ⟨⟨h₁, h₂, h₃.1⟩, h₃.2⟩
  · refine ⟨?_, ?_, ?_⟩
    · rw [htime, prefDepTimeKnots_perm_iff]
      exact h₁
    · rw [hvalue, timeValueKnots_perm_iff]
      exact h₂
    · rw [hdtd, dtdKnots_perm_iff]
      exact ⟨h₃, hwhole⟩

end Row

section Real

/-- A row whose only pair of the arrival pattern is one day and a half before departure. -/
def halfDaySample : List Char :=
  ("2010-02-08;2010-02-08;0000000;SIN;BKK;M;SIN:1;IN:1;RO:1;7:1;G:1;0;1;0;1;"
    ++ "6:1;900;15:1;1.5:1;N,1,1;").toList

theorem knotForKnot_iff_sample :
    ∃ (v : Value ℝ) (s' : ParserState ℝ (Tape ℝ) (SortedQueue ℝ)),
      parse perform demand skipBlanks firstRowSample startSample = .hit v [] s' ∧
      ∃ (R : Row ℝ) (d : DemandStruct ℝ), HandsOver firstRowSample startSample s' R d ∧
        (KnotForKnot R d ↔ R.Separate ∧ R.WholeDays) := by
  obtain ⟨v, s', h⟩ := matchesAll_iff.mp (show matchesAll
    (parse perform demand skipBlanks firstRowSample startSample) = true by decide +kernel)
  obtain ⟨⟨R, d, hd⟩, hall⟩ := knotForKnot_iff rowStart_startSample h
  exact ⟨v, s', h, R, d, hd, hall R d hd⟩

/-- The pair of the sample row is handed over, but not at its place. -/
theorem knotMoved :
    ∃ (v : Value ℝ) (s' : ParserState ℝ (Tape ℝ) (SortedQueue ℝ)) (R : Row ℝ) (d : DemandStruct ℝ),
      parse perform demand skipBlanks halfDaySample startSample = .hit v [] s' ∧
      HandsOver halfDaySample startSample s' R d ∧
      R.dtdDist.map (fun p => p.1.1) = [3 / 2] ∧ d.dtdProbDist.keys = [-1] ∧ ¬ KnotForKnot R d := by
  obtain ⟨v, s', h⟩ := matchesAll_iff.mp (show matchesAll
    (parse perform demand skipBlanks halfDaySample startSample) = true by decide +kernel)
  obtain ⟨R, d, hd⟩ := exists_handsOver h
  have hrational : amountsIn ℚ .storeDTD halfDaySample = some [3 / 2] := by decide +kernel
  have hdays : R.dtdDist.map (fun p => p.1.1) = [3 / 2] := by
    simpa [amounts_storeDTD] using hd.amounts_eq hrational
  obtain ⟨-, -, -, -, -, -, -, -, -, hdtd⟩ :=
    Row.describe_eq_ok (hd.describe rowStart_startSample)
  change d.dtdProbDist = _ at hdtd
  obtain ⟨p, hp⟩ : ∃ p, R.dtdDist = [p] := List.length_eq_one_iff.mp (by
    rw [← List.length_map (f := fun p => p.1.1), hdays]
    rfl)
  rw [hp, List.map_singleton, List.singleton_inj] at hdays
  have hwhole : wholeDays p.1.1 = 1 := by
    rw [hdays]
    change ⌊(3 / 2 : ℝ)⌋.toNat % 4294967296 = 1
    norm_num
  have hknots : d.dtdProbDist.pairs = [(-1, p.2.1)] := by
    rw [hdtd, Row.wholeDtdKnots, hp, List.map_singleton, hwhole, Nat.cast_one]
    rfl
  refine ⟨v, s', R, d, h, hd, by rw [hp, List.map_singleton, hdays], ?_, fun hknot => ?_⟩
  · rw [OMap.keys, hknots]
    rfl
  · have hperm := hknot.dtdProbDist
    rw [hknots, Row.dtdKnots, hp, List.map_singleton, List.singleton_perm, List.singleton_inj,
      hdays] at hperm
    have := congrArg Prod.fst hperm
    norm_num at this

end Real

end Trademgen
