import Trademgen.DateRange
import Trademgen.DemandDescription

/-!
A row that is accepted.

Its fields fill the structure, the streams are created from what they left there, and the
structure is clean again for the next row.
-/

set_option linter.unusedSectionVars false

namespace Trademgen

open Spirit Spirit.Grammar OrderedMap

variable {K G Q : Type} [Field K] [LinearOrder K] [FloorRing K] [Libm K] [RandomGeneration K G]
  [EventQueue K Q]

/-! ### The fields -/

/-- What `perform` does, given what the actions use. -/
def performDatum (a : Action) (x : Datum K) (s : ParserState K G Q) :
    Effect ParserFailure (ParserState K G Q) :=
  match enter a x s.demand with
  | .ok d => .done { s with demand := d }
  | .error e => .threw (.action e)

lemma perform_eq_performDatum {a : Action} (ha : a ≠ .doEndDemand) (v : Value K) (f l : List Char)
    (s : ParserState K G Q) : perform a v f l s = performDatum a (datum a v (consumed f l)) s := by
  have hstore := store_eq_enter a v f l s.demand
  cases henter : enter a (datum a v (consumed f l)) s.demand <;>
    simp only [perform, performDatum, if_neg ha, hstore, henter]

lemma replay_performDatum (es : List (Event Action (Datum K))) (s : ParserState K G Q) :
    replay performDatum es s =
      match fill es s.demand with
      | .ok d => .done { s with demand := d }
      | .error e => .threw (.action e) := by
  induction es generalizing s with
  | nil => rfl
  | cons e es ih =>
    rw [replay, fill_cons, performDatum]
    cases enter e.action e.datum s.demand with
    | ok d => exact ih { s with demand := d }
    | error f => rfl

lemma acts_demandFields {a : Action} (ha : a ∈ demandFields.acts) : a ≠ .doEndDemand := by
  rintro rfl
  revert ha
  decide

lemma replay_done_iff {es : List (Event Action (Datum K))} {s s' : ParserState K G Q} :
    replay performDatum es s = .done s' ↔
      ∃ d, fill es s.demand = .ok d ∧ s' = { s with demand := d } := by
  rw [replay_performDatum]
  cases fill es s.demand with
  | ok d => simp [eq_comm]
  | error e => simp

section Fields

variable {xs r : List Char} {v : Value K} {s s' : ParserState K G Q}

lemma parse_demandFields_iff [IsStrictOrderedRing K] :
    parse perform demandFields skipBlanks xs s = .hit v r s' ↔
      ∃ (R : Row K) (d : DemandStruct K), Reads datum demandFields skipBlanks xs v r R.events ∧
        fill R.events s.demand = .ok d ∧ s' = { s with demand := d } := by
  have hI (a : Action) (ha : a ∈ demandFields.acts) (v : Value K) (f l : List Char)
      (s : ParserState K G Q) := perform_eq_performDatum (acts_demandFields ha) v f l s
  refine ⟨fun h => ?_, ?_⟩
  · obtain ⟨es, hr, hdone⟩ := exists_reads hI h
    obtain ⟨R, rfl⟩ := reads_demandFields hr
    obtain ⟨d, hd, hs⟩ := replay_done_iff.mp hdone
    exact ⟨R, d, hr, hd, hs⟩
  · rintro ⟨R, d, hr, hd, hs⟩
    rw [hr.parse hI, replay_done_iff.mpr ⟨d, hd, hs⟩]
    rfl

/-! ### The end of the row -/

/-- A run of the creation with enough iterations for the range of the row. -/
def creates (d : DemandStruct K) (w w' : World K G Q) : Prop :=
  DemandManager.createDemandCharacteristics
    ((d.dateRange.end_ - d.dateRange.begin_).toNat + 1) d w = .ok ⟨⟩ w'

lemma doEndDemand_iff {iStrEnd : List Char} :
    doEndDemand iStrEnd s = .done s' ↔ ∃ w', creates s.demand s.world w' ∧
      s' = ⟨s.demand.cleanLists, w', s.handed ++ [iStrEnd]⟩ := by
  unfold doEndDemand creates
  dsimp only
  generalize DemandManager.createDemandCharacteristics _ s.demand s.world = x
  cases x with
  | ok u w => simp [eq_comm]
  | error e w => cases e <;> simp

lemma parse_demandEnd_iff {rest : List Char} :
    parse perform (.act demandEnd .doEndDemand) skipBlanks r s = .hit v rest s' ↔
      skipBlanks r = ';' :: rest ∧ v = .none ∧ doEndDemand rest s = .done s' := by
  have hidem : skipBlanks (skipBlanks r) = skipBlanks r := List.dropWhile_idempotent _ _
  refine ⟨fun h => ?_, ?_⟩
  · rcases follow_eq_hit.mp h with ⟨v₁, r₁, s₁, hch, hact⟩ | ⟨s₁, -, hc⟩
    · obtain ⟨hdone, rfl, rfl⟩ := result_eq_hit.mp hact
      obtain ⟨hr, rfl, rfl⟩ := parse_ch_iff.mp hch
      exact ⟨hidem ▸ hr, rfl, hdone⟩
    · cases hc
  · rintro ⟨hr, rfl, hdone⟩
    exact follow_eq_hit.mpr (Or.inl ⟨.none, rest, s,
      parse_ch_iff.mpr ⟨hidem.trans hr, rfl, rfl⟩, result_eq_hit.mpr ⟨hdone, rfl, rfl⟩⟩)

/-- **A row** that is accepted: its fields fill the structure, the streams are created from it, and
its maps are cleared. -/
theorem parse_demand_iff [IsStrictOrderedRing K] {rest : List Char} :
    parse perform demand skipBlanks xs s = .hit v rest s' ↔
      ∃ (R : Row K) (d : DemandStruct K) (w' : World K G Q) (v₁ : Value K) (r : List Char),
        Reads datum demandFields skipBlanks xs v₁ r R.events ∧ skipBlanks r = ';' :: rest ∧
        fill R.events s.demand = .ok d ∧ creates d s.world w' ∧ v = .none ∧
        s' = ⟨d.cleanLists, w', s.handed ++ [rest]⟩ := by
  refine ⟨fun h => ?_, ?_⟩
  · rcases follow_eq_hit.mp h with ⟨v₁, r₁, s₁, hfields, hend⟩ | ⟨s₁, -, hc⟩
    · obtain ⟨R, d, hr, hd, rfl⟩ := parse_demandFields_iff.mp hfields
      obtain ⟨hsemi, rfl, hdone⟩ := parse_demandEnd_iff.mp hend
      obtain ⟨w', hw, rfl⟩ := doEndDemand_iff.mp hdone
      exact ⟨R, d, w', v₁, r₁, hr, hsemi, hd, hw, rfl, rfl⟩
    · cases hc
  · rintro ⟨R, d, w', v₁, r, hr, hsemi, hd, hw, rfl, rfl⟩
    refine follow_eq_hit.mpr (Or.inl ⟨v₁, r, { s with demand := d }, ?_, ?_⟩)
    · exact parse_demandFields_iff.mpr ⟨R, d, hr, hd, rfl⟩
    · exact parse_demandEnd_iff.mpr ⟨hsemi, rfl, doEndDemand_iff.mpr ⟨w', hw, rfl⟩⟩

end Fields

/-! ### From one row to the next -/

lemma fill_ok {d d' : DemandStruct K} (hd : d.Clean) {R : Row K} (h : fill R.events d = .ok d') :
    R.describe = .ok d'.description ∧ d'.itMinutes = 0 ∧ d'.itSeconds = 0 := by
  have heq := fill_events hd R
  rw [h] at heq
  cases hR : R.describe with
  | error e =>
    rw [hR] at heq
    cases heq
  | ok x =>
    rw [hR] at heq
    simp only [Except.map, Except.ok.injEq, Prod.mk.injEq] at heq
    exact ⟨by rw [heq.1], heq.2⟩

lemma exists_fill {d : DemandStruct K} (hd : d.Clean) {R : Row K} {x : Description K}
    (h : R.describe = .ok x) :
    ∃ d', fill R.events d = .ok d' ∧ d'.description = x ∧ d'.itMinutes = 0 ∧ d'.itSeconds = 0 := by
  have heq := fill_events hd R
  rw [h] at heq
  cases hf : fill R.events d with
  | error e =>
    rw [hf] at heq
    cases heq
  | ok d' =>
    rw [hf] at heq
    simp only [Except.map, Except.ok.injEq, Prod.mk.injEq] at heq
    exact ⟨d', rfl, heq⟩

/-- The creation returns when the range is not reversed, and only then. -/
lemma creates_range {d : DemandStruct K} {w w' : World K G Q} (h : creates d w w') :
    d.dateRange.begin_ ≤ d.dateRange.end_ := by
  by_contra hlt
  exact DemandManager.iterateDates_diverges _ _ w w' (not_le.mp hlt) h

lemma exists_creates {d : DemandStruct K} (h : d.dateRange.begin_ ≤ d.dateRange.end_)
    (w : World K G Q) : ∃ w', creates d w w' ∧ DemandManager.Created d
      (d.activeDates d.dateRange.begin_ (d.dateRange.end_ - d.dateRange.begin_).toNat) w w' := by
  have hend : d.dateRange.begin_ + ((d.dateRange.end_ - d.dateRange.begin_).toNat : ℤ)
      = d.dateRange.end_ := by
    rw [Int.toNat_of_nonneg (sub_nonneg.mpr h), add_sub_cancel]
  exact DemandManager.iterateDates_ok _ _ w hend

/-- The states in which the parser of a file comes to a new item. -/
inductive RowStart : ParserState K G Q → Prop
  | start (defaultDatePeriod : DatePeriod) (defaultDow : DoWStruct) (defaultCabinCode : String)
      (w : World K G Q) : RowStart ⟨.make defaultDatePeriod defaultDow defaultCabinCode, w, []⟩
  | item {text rest : List Char} {s s' : ParserState K G Q} {v : Value K} : RowStart s →
      parse perform demandItem skipBlanks text s = .hit v rest s' → RowStart s'

lemma parse_notToBeParsed (text : List Char) (s : ParserState K G Q) :
    (parse perform notToBeParsed skipBlanks text s).Holds (· = s) :=
  parse_holds (fun a ha => by
    rw [show notToBeParsed.acts = [] from rfl] at ha
    cases ha) rfl

/-- **Every row** starts from a clean structure. -/
lemma RowStart.clean [IsStrictOrderedRing K] {s : ParserState K G Q} (h : RowStart s) :
    s.demand.Clean := by
  induction h with
  | start period dow cabin w => exact DemandStruct.clean_make period dow cabin
  | @item text rest s s' v hs hitem ih =>
    have hother := parse_notToBeParsed text s
    rcases follow_eq_hit.mp hitem with ⟨v₁, r₁, s₁, hp, heq⟩ | ⟨s₁, hp, hdemand⟩
    · rw [hp] at hother
      cases heq
      exact (show s' = s from hother) ▸ ih
    · rw [hp] at hother
      obtain rfl : s₁ = s := hother
      obtain ⟨R, d, w', v₁, r, -, -, hfill, -, -, rfl⟩ := parse_demand_iff.mp hdemand
      obtain ⟨-, hm, hsec⟩ := fill_ok ih hfill
      exact DemandStruct.clean_cleanLists hm hsec

/-! ### Matches of a whole text -/

/-- A match of the whole text. -/
def matchesAll {K ε σ : Type} : Result K ε σ → Bool
  | .hit _ [] _ => true
  | _ => false

lemma matchesAll_iff {K ε σ : Type} {x : Result K ε σ} :
    matchesAll x = true ↔ ∃ v s, x = .hit v [] s := by
  rcases x with ⟨v, _ | ⟨c, r⟩, s⟩ | s | e | _ <;> simp [matchesAll]

/-- A new parser, over a world without streams. -/
noncomputable def startSample : ParserState ℝ (Tape ℝ) (SortedQueue ℝ) :=
  ⟨.make ⟨0, 0⟩ ⟨List.replicate 7 true⟩ "Y", emptySample, []⟩

lemma rowStart_startSample : RowStart startSample := .start _ _ _ _

def firstRowSample : List Char :=
  ("2010-02-08;2010-02-08;0000000;SIN;BKK;M;SIN:0.7;IN:1;RO:1;7:1;G:1;0;1;0;1;"
    ++ "6.30:0.5,8.45.30:1;900;15:1;330:1;N,1,1;").toList

/-- A row that gives a time without minutes, with one active day in its range. -/
def secondRowSample : List Char :=
  ("2010-03-08; 2010-03-10;0100000;SIN;HND;M;row:1;IN:1;RI:1;0:1;P:1;0;1;0;1;"
    ++ "6:1;500;15:1;10:1;N,2,1;").toList

end Trademgen
