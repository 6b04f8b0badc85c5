import Trademgen.DateRange
import Trademgen.DemandParser

/-!
What a demand file that is accepted holds.

The list of items is a star, which matches any text, and the test on its result is that it
matched. A file that is not read to its end is accepted like the others, unless an action throws
before the place where the reading stops.
-/

set_option linter.unusedSectionVars false

namespace Trademgen

open Spirit

variable {K G Q : Type} [Field K] [LinearOrder K] [FloorRing K] [Libm K] [RandomGeneration K G]
  [EventQueue K Q]

/-- The whole text is a sequence of comments, ends of lines and rows, followed by blanks; the list
holds the places where the rows end. -/
inductive WellFormed (K : Type) [Field K] : List Char → List (List Char) → Prop
  | finish {text : List Char} : recognise K demandItem skipBlanks text = none →
      skipBlanks text = [] → WellFormed K text []
  | other {text rest : List Char} {ends : List (List Char)} :
      recognise K notToBeParsed skipBlanks text = some rest → WellFormed K rest ends →
      WellFormed K text ends
  | row {text rest : List Char} {ends : List (List Char)} :
      recognise K notToBeParsed skipBlanks text = none →
      recognise K demand skipBlanks text = some rest → WellFormed K rest ends →
      WellFormed K text (rest :: ends)

/-- A file is read to its end, each of its rows being handed on once and in order, or refused. -/
def Ending.ReadOrRefused (text : List Char) : Ending K G Q → Prop
  | .returned oResult s => oResult = true ∧ WellFormed K text s.handed
  | .threw _ => True
  | .endless => False

/-- The items of the text follow one another up to its end, or up to one where an action throws. -/
inductive Readable : List Char → ParserState K G Q → Prop
  | finish {text : List Char} {s s' : ParserState K G Q} :
      parse perform demandItem skipBlanks text s = .miss s' → skipBlanks text = [] →
      Readable text s
  | item {text rest : List Char} {s s' : ParserState K G Q} {v : Value K} :
      parse perform demandItem skipBlanks text s = .hit v rest s' → Readable rest s' →
      Readable text s
  | refused {text : List Char} {s : ParserState K G Q} {e : ParserFailure} :
      parse perform demandItem skipBlanks text s = .threw e → Readable text s

/-! ### One item -/

lemma length_skipBlanks (xs : List Char) : (skipBlanks xs).length ≤ xs.length :=
  length_dropWhile_le _ _

lemma perform_handed {a : Action} (ha : a ≠ .doEndDemand) {v : Value K} {f l : List Char}
    {s s' : ParserState K G Q} (h : perform a v f l s = .done s') : s'.handed = s.handed := by
  unfold perform at h
  rw [if_neg ha] at h
  cases hstore : store a v f l s.demand with
  | ok d =>
    rw [hstore] at h
    cases h
    rfl
  | error e =>
    rw [hstore] at h
    cases h

/-- A grammar without the end of a row hands nothing on. -/
lemma parse_handed {p : Grammar Action} (hp : .doEndDemand ∉ p.acts)
    (skip : List Char → List Char) (xs : List Char) (s : ParserState K G Q) :
    (parse perform p skip xs s).Holds fun t => t.handed = s.handed :=
  parse_holds (fun _ ha _ _ _ _ _ h hd =>
    (perform_handed (fun heq => hp (heq ▸ ha)) hd).trans h) rfl

lemma doEndDemand_handed {iStrEnd : List Char} {s s' : ParserState K G Q}
    (h : doEndDemand iStrEnd s = .done s') : s'.handed = s.handed ++ [iStrEnd] := by
  unfold doEndDemand at h
  dsimp only at h
  split at h
  · cases h
    rfl
  · cases h
  · cases h

variable {text rest : List Char} {s s' : ParserState K G Q} {v : Value K}

/-- **A row** that matches is handed on, once. -/
lemma parse_demand_hit (h : parse perform demand skipBlanks text s = .hit v rest s') :
    s'.handed = s.handed ++ [rest] := by
  rcases follow_eq_hit.mp h with ⟨v₁, r₁, s₁, hfields, hend⟩ | ⟨s₁, -, hc⟩
  · rcases follow_eq_hit.mp hend with ⟨v₂, r₂, s₂, hch, hact⟩ | ⟨s₂, -, hc⟩
    · obtain ⟨hdone, rfl, rfl⟩ := result_eq_hit.mp hact
      have h₁ : s₁.handed = s.handed := by
        have hh := parse_handed (show .doEndDemand ∉ demandFields.acts by decide) skipBlanks text s
        rwa [hfields] at hh
      have h₂ : s₂.handed = s₁.handed := by
        have hh := parse_handed (show .doEndDemand ∉ demandEnd.acts by decide) skipBlanks
          (skipBlanks r₁) s₁
        rwa [hch] at hh
      rw [doEndDemand_handed (show doEndDemand r₂ s₂ = .done s' from hdone), h₂, h₁]
    · cases hc
  · cases hc

/-- A row that does not match is not handed on. -/
lemma parse_demand_miss (h : parse perform demand skipBlanks text s = .miss s') :
    s'.handed = s.handed := by
  have hfields := parse_handed (show .doEndDemand ∉ demandFields.acts by decide) skipBlanks text s
  rcases follow_eq_miss.mp h with ⟨v₁, r₁, s₁, hp, hend⟩ | ⟨s₁, hp, heq⟩
  · rw [hp] at hfields
    rcases follow_eq_miss.mp hend with ⟨v₂, r₂, s₂, -, hact⟩ | ⟨s₂, hch, heq⟩
    · exact absurd hact result_ne_miss
    · cases heq
      have hh := parse_handed (show .doEndDemand ∉ demandEnd.acts by decide) skipBlanks
        (skipBlanks r₁) s₁
      rw [hch] at hh
      exact Eq.trans hh hfields
  · cases heq
    rwa [hp] at hfields

/-- **An item** that matches is either a row, handed on once, or not to be parsed. -/
lemma parse_demandItem_hit (h : parse perform demandItem skipBlanks text s = .hit v rest s') :
    recognise K notToBeParsed skipBlanks text = some rest ∧ s'.handed = s.handed ∨
      recognise K notToBeParsed skipBlanks text = none ∧
        recognise K demand skipBlanks text = some rest ∧ s'.handed = s.handed ++ [rest] := by
  have hother (s : ParserState K G Q) :=
    parse_handed (show .doEndDemand ∉ notToBeParsed.acts by decide) skipBlanks text s
  rcases follow_eq_hit.mp h with ⟨v₁, r₁, s₁, hp, heq⟩ | ⟨s₁, hp, hq⟩
  · cases heq
    have hh := hother s
    rw [hp] at hh
    exact Or.inl ⟨recognise_of_hit hp, hh⟩
  · have hh := hother s
    rw [hp] at hh
    have hh' : s₁.handed = s.handed := hh
    rw [← hh']
    exact Or.inr ⟨recognise_of_miss hp, recognise_of_hit hq, parse_demand_hit hq⟩

lemma parse_demandItem_miss (h : parse perform demandItem skipBlanks text s = .miss s') :
    recognise K notToBeParsed skipBlanks text = none ∧
      recognise K demand skipBlanks text = none ∧ s'.handed = s.handed := by
  have hh := parse_handed (show .doEndDemand ∉ notToBeParsed.acts by decide) skipBlanks text s
  rcases follow_eq_miss.mp h with ⟨v₁, r₁, s₁, -, hc⟩ | ⟨s₁, hp, hq⟩
  · cases hc
  · rw [hp] at hh
    exact ⟨recognise_of_miss hp, recognise_of_miss hq, (parse_demand_miss hq).trans hh⟩

/-! ### The list -/

/-- The list of items, one item further. -/
lemma parse_demandList (text : List Char) (s : ParserState K G Q) :
    parse perform demandList skipBlanks text s =
      (parse perform demandItem skipBlanks text s).follow
        (fun _ r s' => parse perform demandList skipBlanks r s') fun s' => .hit .none text s' :=
  parse_star length_skipBlanks (by decide) text s

/-- Whether the items go up to the end of the text shows in the result of the list. -/
def ReadableResult (text : List Char) (s : ParserState K G Q) :
    Result K ParserFailure (ParserState K G Q) → Prop
  | .hit _ stop _ => Readable text s ↔ skipBlanks stop = []
  | .miss _ => False
  | .threw _ => Readable text s
  | .endless => ¬ Readable text s

lemma Readable.of_hit_iff (h : parse perform demandItem skipBlanks text s = .hit v rest s') :
    Readable text s ↔ Readable rest s' := by
  refine ⟨fun hr => ?_, ?_⟩
  · cases hr with
    | finish hc => rw [h] at hc; cases hc
    | item hi hr => rw [h] at hi; cases hi; exact hr
    | refused hc => rw [h] at hc; cases hc
  · exact .item h

/-- **The list** tells a file that is read to its end by what it leaves, and no other way. -/
lemma demandList_readable (text : List Char) (s : ParserState K G Q) :
    ReadableResult text s (parse perform demandList skipBlanks text s) := by
  induction hlen : text.length using Nat.strong_induction_on generalizing text s with
  | _ n ih =>
    subst hlen
    rw [parse_demandList]
    cases hitem : parse perform demandItem skipBlanks text s with
    | hit v r s' =>
      have hlt : r.length < text.length := by
        have := parse_length length_skipBlanks hitem
        rwa [show demandItem.eats = true by decide] at this
      have hrest := ih _ hlt r s' rfl
      have hiff := Readable.of_hit_iff hitem
      change ReadableResult text s (parse perform demandList skipBlanks r s')
      cases hr : parse perform demandList skipBlanks r s' with
      | hit v' stop s'' => rw [hr] at hrest; exact hiff.trans hrest
      | miss s'' => rw [hr] at hrest; exact hrest
      | threw e => rw [hr] at hrest; exact hiff.mpr hrest
      | endless => rw [hr] at hrest; exact fun h => hrest (hiff.mp h)
    | miss s' =>
      refine ⟨fun hr => ?_, ?_⟩
      · cases hr with
        | finish _ hblank => exact hblank
        | item hi => rw [hitem] at hi; cases hi
        | refused hc => rw [hitem] at hc; cases hc
      · exact .finish hitem
    | threw e => exact .refused hitem
    | endless =>
      intro hr
      cases hr with
      | finish hc => rw [hitem] at hc; cases hc
      | item hi => rw [hitem] at hi; cases hi
      | refused hc => rw [hitem] at hc; cases hc

/-- **A list that leaves blanks** only was well formed, and its rows were handed on as they came. -/
lemma demandList_wellFormed {stop : List Char}
    (h : parse perform demandList skipBlanks text s = .hit v stop s') :
    (skipBlanks stop = [] → ∃ ends, WellFormed K text ends ∧ s'.handed = s.handed ++ ends) ∧
      ∀ ends, WellFormed K text ends → skipBlanks stop = [] := by
  induction hlen : text.length using Nat.strong_induction_on generalizing text s with
  | _ n ih =>
    subst hlen
    rw [parse_demandList] at h
    rcases follow_eq_hit.mp h with ⟨v₁, r₁, s₁, hitem, hrest⟩ | ⟨s₁, hitem, heq⟩
    · have hlt : r₁.length < text.length := by
        have := parse_length length_skipBlanks hitem
        rwa [show demandItem.eats = true by decide] at this
      obtain ⟨hform, hback⟩ := ih _ hlt hrest rfl
      have hwhich := parse_demandItem_hit hitem
      refine ⟨fun hstop => ?_, fun ends hends => ?_⟩
      · obtain ⟨ends, hends, hhanded⟩ := hform hstop
        rcases hwhich with ⟨hother, hh⟩ | ⟨hnone, hrow, hh⟩
        · exact ⟨ends, .other hother hends, by rw [hhanded, hh]⟩
        · exact ⟨r₁ :: ends, .row hnone hrow hends, by rw [hhanded, hh, List.append_assoc]; rfl⟩
      · cases hends with
        | finish hnone _ =>
          rw [recognise_of_hit hitem] at hnone
          cases hnone
        | other hother hends =>
          rcases hwhich with ⟨hother', -⟩ | ⟨hnone, -, -⟩
          · rw [hother] at hother'
            cases hother'
            exact hback _ hends
          · rw [hother] at hnone
            cases hnone
        | row hnone hrow hends =>
          rcases hwhich with ⟨hother', -⟩ | ⟨-, hrow', -⟩
          · rw [hnone] at hother'
            cases hother'
          · rw [hrow] at hrow'
            cases hrow'
            exact hback _ hends
    · cases heq
      obtain ⟨hother, hrow, hh⟩ := parse_demandItem_miss hitem
      refine ⟨fun hstop => ⟨[], .finish (recognise_of_miss hitem) hstop, by rw [hh]; simp⟩,
        fun ends hends => ?_⟩
      cases hends with
      | finish _ hblank => exact hblank
      | other hother' => rw [hother] at hother'; cases hother'
      | row _ hrow' => rw [hrow] at hrow'; cases hrow'

section Real

end Real

end Trademgen
