import Trademgen.AcceptedRow
import Trademgen.DemandFile

/-!
Rows do not leak into one another.

The description that a row passes on is decided by the text of the row: nothing of the rows before
it is left in the structure, and nothing of the text after it is looked at.
-/

set_option linter.unusedSectionVars false

namespace Trademgen

open Spirit Spirit.Grammar OrderedMap

variable {K G Q : Type} [Field K] [LinearOrder K] [FloorRing K] [Libm K] [RandomGeneration K G]
  [EventQueue K Q]

/-! ### What is passed on -/

/-- The actions, with the descriptions passed to `createDemandCharacteristics` so far; the code
does not keep them. -/
def observe : Actor K Action ParserFailure (ParserState K G Q × List (Description K)) :=
  fun a v f l s => (perform a v f l s.1).map fun s' =>
    (s', if a = .doEndDemand then s.2 ++ [s.1.demand.description] else s.2)

/-- The descriptions passed on by a text that is read to its end. -/
def descriptionsOf (text : List Char) (d : DemandStruct K) (w : World K G Q) :
    Option (List (Description K)) :=
  match parse observe demandList skipBlanks text (⟨d, w, []⟩, []) with
  | .hit _ stop s => if skipBlanks stop = [] then some s.2 else none
  | _ => none

/-- A text made of rows, of comments and of ends of lines, with blanks at its end. -/
inductive FileOf (K : Type) [Field K] : List (List Char) → List Char → Prop
  | finish {text : List Char} : skipBlanks text = [] → FileOf K [] text
  | other {rows : List (List Char)} {text rest : List Char} :
      recognise K notToBeParsed skipBlanks text = some rest → FileOf K rows rest →
      FileOf K rows text
  | row {rows : List (List Char)} {rest : List Char} (row : List Char) : FileOf K rows rest →
      FileOf K (row :: rows) (row ++ rest)

/-- A row that is accepted up to its last character, by a parser that is new. -/
def AcceptedRow (d : DemandStruct K) (w : World K G Q) (row : List Char) : Prop :=
  ∃ v s', parse perform demand skipBlanks row ⟨d, w, []⟩ = .hit v [] s'

section Observe

lemma parse_perform_eq (p : Grammar Action) (skip : List Char → List Char) (xs : List Char)
    (s : ParserState K G Q × List (Description K)) :
    parse perform p skip xs s.1 = (parse observe p skip xs s).map Prod.fst := by
  refine parse_map (fun a v f l s => ?_) p skip xs s
  unfold observe
  cases perform a v f l s.1 <;> rfl

/-- A grammar without the end of a row passes nothing on. -/
lemma parse_observe_passed {p : Grammar Action} (skip : List Char → List Char) (xs : List Char)
    (hp : .doEndDemand ∉ p.acts) (s : ParserState K G Q × List (Description K)) :
    (parse observe p skip xs s).Holds fun t => t.2 = s.2 := by
  refine parse_holds (fun a ha v f l t t' ht h => ?_) rfl
  have hne : a ≠ .doEndDemand := fun heq => hp (heq ▸ ha)
  unfold observe at h
  cases hperform : perform a v f l t.1 with
  | done t₁ =>
    rw [hperform, if_neg hne] at h
    cases h
    exact ht
  | threw e =>
    rw [hperform] at h
    cases h
  | endless =>
    rw [hperform] at h
    cases h

/-- What the parser does there is what it does without an observer. -/
lemma parse_observe_hit {p : Grammar Action} {skip : List Char → List Char} {xs : List Char}
    (hp : .doEndDemand ∉ p.acts) {s s' : ParserState K G Q} {v : Value K} {r : List Char}
    (h : parse perform p skip xs s = .hit v r s') (l : List (Description K)) :
    parse observe p skip xs (s, l) = .hit v r (s', l) := by
  have hmap := parse_perform_eq p skip xs (s, l)
  have hpassed := parse_observe_passed skip xs hp (s, l)
  rw [h] at hmap
  cases ho : parse observe p skip xs (s, l) with
  | hit v₁ r₁ t =>
    rw [ho] at hmap hpassed
    cases hmap
    rw [← show t.2 = l from hpassed]
  | miss t =>
    rw [ho] at hmap
    cases hmap
  | threw e =>
    rw [ho] at hmap
    cases hmap
  | endless =>
    rw [ho] at hmap
    cases hmap

end Observe

/-! ### Comments and ends of lines -/

section Comments

variable {rest : List Char}

/-- An end of line can stand before what follows. -/
lemma FileOf.endOfLine {rows : List (List Char)} (h : FileOf K rows rest) :
    FileOf K rows ('\n' :: rest) :=
  .other rfl h

/-- A comment up to the end of its line can. -/
lemma FileOf.lineComment {rows : List (List Char)} {body : List Char}
    (hbody : ∀ c ∈ body, c ≠ '\n' ∧ c ≠ '\r') (h : FileOf K rows rest) :
    FileOf K rows ('/' :: '/' :: (body ++ '\n' :: rest)) := by
  have hopen : parse (K := K) blind (chseq '/' ['/'] : Grammar Action) id
      ('/' :: '/' :: (body ++ '\n' :: rest)) () = .hit .none (body ++ '\n' :: rest) () := rfl
  have hinside (k : ℕ) (hk : k < body.length) :
      parse (K := K) blind (.eolP <|> .endP : Grammar Action) id (body.drop k ++ '\n' :: rest) ()
        = .miss () := by
    obtain ⟨hn, hr⟩ := hbody _ (List.getElem_mem hk)
    have heol : parse (K := K) blind (.eolP : Grammar Action) id
        (body[k] :: (body.drop (k + 1) ++ '\n' :: rest)) () = .miss () := by
      change matched _ (readEol _) () = _
      rw [id, readEol_eq_none hr hn]
      rfl
    rw [List.drop_eq_getElem_cons hk, List.cons_append]
    exact follow_eq_miss.mpr (Or.inr ⟨(), heol, rfl⟩)
  have hcomment := parse_comment hopen hinside
    (show parse (K := K) blind (.eolP <|> .endP : Grammar Action) id ('\n' :: rest) ()
      = .hit .none rest () from rfl) le_rfl
  have hparse : parse (K := K) blind notToBeParsed skipBlanks
      ('/' :: '/' :: (body ++ '\n' :: rest)) () = .hit .none rest () :=
    follow_eq_hit.mpr (Or.inl ⟨_, _, (), hcomment, rfl⟩)
  exact .other (recognise_of_hit hparse) h

/-- A comment between marks can. -/
lemma FileOf.blockComment {rows : List (List Char)} {body : List Char} (hbody : '*' ∉ body)
    (h : FileOf K rows rest) :
    FileOf K rows ('/' :: '*' :: (body ++ '*' :: '/' :: rest)) := by
  have hopen : parse (K := K) blind (chseq '/' ['*'] : Grammar Action) id
      ('/' :: '*' :: (body ++ '*' :: '/' :: rest)) ()
        = .hit .none (body ++ '*' :: '/' :: rest) () := rfl
  have hinside (k : ℕ) (hk : k < body.length) :
      parse (K := K) blind (chseq '*' ['/'] : Grammar Action) id
        (body.drop k ++ '*' :: '/' :: rest) () = .miss () := by
    have hne : body[k] ≠ '*' := fun heq => hbody (heq ▸ List.getElem_mem hk)
    have hstar : parse (K := K) blind (ch '*' : Grammar Action) id
        (body[k] :: (body.drop (k + 1) ++ '*' :: '/' :: rest)) () = .miss () :=
      parse_ch_miss blind id rfl hne ()
    rw [List.drop_eq_getElem_cons hk, List.cons_append]
    exact follow_eq_miss.mpr (Or.inr ⟨(), hstar, rfl⟩)
  have hcomment := parse_comment hopen hinside
    (show parse (K := K) blind (chseq '*' ['/'] : Grammar Action) id ('*' :: '/' :: rest) ()
      = .hit .none rest () from rfl) (Nat.le_succ _)
  have hparse : parse (K := K) blind notToBeParsed skipBlanks
      ('/' :: '*' :: (body ++ '*' :: '/' :: rest)) () = .hit .none rest () :=
    follow_eq_hit.mpr (Or.inl ⟨_, _, (), hcomment, rfl⟩)
  exact .other (recognise_of_hit hparse) h

end Comments

/-! ### Lists side by side -/

lemma exists_forall₂ {α β : Type} {P : α → β → Prop} {l : List α} (h : ∀ a ∈ l, ∃ b, P a b) :
    ∃ l' : List β, List.Forall₂ P l l' := by
  induction l with
  | nil => exact ⟨[], .nil⟩
  | cons a l ih =>
    obtain ⟨b, hb⟩ := h a List.mem_cons_self
    obtain ⟨l', hl'⟩ := ih fun x hx => h x (List.mem_cons_of_mem a hx)
    exact ⟨b :: l', .cons hb hl'⟩

lemma mapM_eq_some {α β : Type} {f : α → Option β} {l : List α} {l' : List β}
    (h : List.Forall₂ (fun a b => f a = some b) l l') : l.mapM f = some l' := by
  induction h with
  | nil => rfl
  | cons hab _ ih =>
    rw [List.mapM_cons, hab, ih]
    rfl

/-! ### One row in a file -/

/-- The text is a row with this description, whose creation returns. -/
def Describes (row : List Char) (x : Description K) : Prop :=
  ∃ (R : Row K) (v : Value K) (r : List Char),
    Reads datum demandFields skipBlanks row v r R.events ∧ skipBlanks r = [';'] ∧
    R.describe = .ok x ∧ x.dateRange.begin_ ≤ x.dateRange.end_

section Rows

variable [IsStrictOrderedRing K] {d : DemandStruct K} {w : World K G Q} {row : List Char}
  {x : Description K}

/-- A row that is accepted has its description. -/
lemma AcceptedRow.describes (hd : d.Clean) (h : AcceptedRow d w row) :
    ∃ x : Description K, Describes row x := by
  obtain ⟨v, s', hparse⟩ := h
  obtain ⟨R, d', w', v₁, r, hr, hsemi, hfill, hcreates, -, -⟩ := parse_demand_iff.mp hparse
  refine ⟨d'.description, R, v₁, r, hr, hsemi, (fill_ok hd hfill).1, ?_⟩
  exact creates_range hcreates

/-- A row starts with the year of a date. -/
lemma Describes.head (h : Describes row x) : ∃ c t, skipBlanks row = c :: t ∧ c.isDigit = true := by
  obtain ⟨R, v, r, hr, -, -, -⟩ := h
  obtain ⟨_, _, _, _, _, hrange, -, -, -⟩ := reads_between.mp hr
  obtain ⟨_, _, _, _, _, hstart, -, -, -⟩ := reads_between.mp hrange
  obtain ⟨_, hdate, -⟩ := reads_act.mp hstart
  obtain ⟨_, _, _, _, _, hyear, -, -, -⟩ := reads_between.mp (reads_lexeme.mp hdate)
  obtain ⟨_, hnum, -⟩ := reads_act.mp hyear
  obtain ⟨n, hn, -, -⟩ := matched_eq_hit.mp hnum
  have hidem : skipBlanks (skipBlanks row) = skipBlanks row := List.dropWhile_idempotent _ _
  have hhead := readUint_head (by decide) hn
  simp only [id_eq, hidem] at hhead
  exact hhead

lemma digit_ne {c d : Char} (hc : c.isDigit = true) (hd : d.isDigit = false) : c ≠ d := by
  rintro rfl
  rw [hc] at hd
  cases hd

lemma isBlank_of_isDigit {c : Char} (hc : c.isDigit = true) : isBlank c = false := by
  simp only [isBlank, Bool.or_eq_false_iff, decide_eq_false_iff_not]
  exact ⟨⟨⟨digit_ne hc (by decide), digit_ne hc (by decide)⟩, digit_ne hc (by decide)⟩,
    digit_ne hc (by decide)⟩

/-- What starts with a digit is not a comment, and not the end of a line. -/
lemma notToBeParsed_miss {text t : List Char} {c : Char} (h : skipBlanks text = c :: t)
    (hc : c.isDigit = true) (s : ParserState K G Q × List (Description K)) :
    parse observe notToBeParsed skipBlanks text s = .miss s := by
  have hcomment (d : Char) (close : Grammar Action) :
      parse observe (comment (chseq '/' [d]) close) id (c :: t) s = .miss s := by
    have hslash : parse observe (ch '/') id (c :: t) s = .miss s :=
      parse_ch_miss observe id rfl (digit_ne hc (by decide)) s
    have hstart : parse observe (chseq '/' [d]) id (c :: t) s = .miss s :=
      follow_eq_miss.mpr (Or.inr ⟨s, hslash, rfl⟩)
    exact follow_eq_miss.mpr (Or.inr ⟨s, hstart, rfl⟩)
  have heol : readEol (c :: t) = none :=
    readEol_eq_none (digit_ne hc (by decide)) (digit_ne hc (by decide)) t
  change parse observe (comment (chseq '/' ['/']) (.eolP <|> .endP)
    <|> comment (chseq '/' ['*']) (chseq '*' ['/']) <|> .eolP) id (skipBlanks text) s = _
  rw [h]
  refine follow_eq_miss.mpr (Or.inr ⟨s, hcomment '/' _, ?_⟩)
  refine follow_eq_miss.mpr (Or.inr ⟨s, hcomment '*' _, ?_⟩)
  change matched _ (readEol (c :: t)) s = _
  rw [heol]
  rfl

/-- **A row in a file** passes on its description, whatever stands before it and after it. -/
lemma Describes.item (h : Describes row x) {s : ParserState K G Q} (hs : s.demand.Clean)
    (l : List (Description K)) (rest : List Char) :
    ∃ s', parse observe demandItem skipBlanks (row ++ rest) (s, l)
      = .hit .none rest (s', l ++ [x]) ∧ s'.demand.Clean := by
  obtain ⟨c, t, hhead, hdigit⟩ := h.head
  obtain ⟨R, v, r, hr, hsemi, hdescribe, hrange⟩ := h
  have hskip : SkipsBefore ';' skipBlanks := skipsBefore_dropWhile (by decide)
  have hmem : ';' ∈ r := (hskip.suffix r).mem (by rw [hsemi]; exact List.mem_singleton_self _)
  have hreads := hr.append (by decide) hskip (by decide) hmem rest
  have hsemi' : skipBlanks (r ++ rest) = ';' :: rest := by
    rw [hskip.append rest hmem, hsemi]
    rfl
  have hhead' : skipBlanks (row ++ rest) = c :: (t ++ rest) := by
    have hc : c ∈ row := (List.dropWhile_suffix _).mem (by
      rw [show row.dropWhile isBlank = c :: t from hhead]
      exact List.mem_cons_self)
    have happend : skipBlanks (row ++ rest) = skipBlanks row ++ rest :=
      (skipsBefore_dropWhile (isBlank_of_isDigit hdigit)).append rest hc
    rw [happend, hhead]
    rfl
  obtain ⟨d', hfill, rfl, hm, hsec⟩ := exists_fill hs hdescribe
  obtain ⟨w', hw', -⟩ := exists_creates hrange s.world
  refine ⟨⟨d'.cleanLists, w', s.handed ++ [rest]⟩, ?_, DemandStruct.clean_cleanLists hm hsec⟩
  have hfields : parse observe demandFields skipBlanks (row ++ rest) (s, l)
      = .hit v (r ++ rest) ({ s with demand := d' }, l) :=
    parse_observe_hit (by decide) (parse_demandFields_iff.mpr ⟨R, d', hreads, hfill, rfl⟩) l
  have hend : parse observe (.act demandEnd .doEndDemand) skipBlanks (r ++ rest)
      ({ s with demand := d' }, l)
      = .hit .none rest (⟨d'.cleanLists, w', s.handed ++ [rest]⟩, l ++ [d'.description]) := by
    have hdone : perform .doEndDemand .none (skipBlanks (r ++ rest)) rest { s with demand := d' }
        = .done ⟨d'.cleanLists, w', s.handed ++ [rest]⟩ :=
      doEndDemand_iff.mpr ⟨w', hw', rfl⟩
    refine follow_eq_hit.mpr (Or.inl ⟨.none, rest, ({ s with demand := d' }, l), ?_, ?_⟩)
    · exact parse_ch_iff.mpr ⟨(List.dropWhile_idempotent _ _).trans hsemi', rfl, rfl⟩
    · refine result_eq_hit.mpr ⟨?_, rfl, rfl⟩
      unfold observe
      rw [hdone]
      rfl
  refine follow_eq_hit.mpr (Or.inr ⟨(s, l), notToBeParsed_miss hhead' hdigit _, ?_⟩)
  exact follow_eq_hit.mpr (Or.inl ⟨v, r ++ rest, _, hfields, hend⟩)

/-! ### The file -/

lemma parse_observe_demandList (text : List Char) (s : ParserState K G Q × List (Description K)) :
    parse observe demandList skipBlanks text s =
      (parse observe demandItem skipBlanks text s).follow
        (fun _ r s' => parse observe demandList skipBlanks r s') fun s' => .hit .none text s' :=
  parse_star length_skipBlanks (by decide) text s

/-- What is not to be parsed leaves everything as it is. -/
lemma notToBeParsed_hit {text rest : List Char}
    (h : recognise K notToBeParsed skipBlanks text = some rest)
    (s : ParserState K G Q × List (Description K)) :
    ∃ v, parse observe notToBeParsed skipBlanks text s = .hit v rest s := by
  obtain ⟨v, es, hr⟩ := (recognise_iff datum).mp h
  obtain rfl := hr.silent rfl
  refine ⟨v, hr.parse (J := fun _ _ => .done) (fun a ha => ?_) s⟩
  rw [show notToBeParsed.acts = [] from rfl] at ha
  cases ha

lemma demandItem_miss {text : List Char} (h : skipBlanks text = [])
    (s : ParserState K G Q × List (Description K)) :
    parse observe demandItem skipBlanks text s = .miss s := by
  have hother : parse observe notToBeParsed skipBlanks text s = .miss s := by
    change parse observe (comment (chseq '/' ['/']) (.eolP <|> .endP)
      <|> comment (chseq '/' ['*']) (chseq '*' ['/']) <|> .eolP) id (skipBlanks text) s = _
    rw [h]
    rfl
  have hdate : parse observe date skipBlanks (skipBlanks text) s = .miss s := by
    rw [h]
    rfl
  have hstart : parse observe (.act date .storePrefDepDateRangeStart) skipBlanks text s = .miss s :=
    follow_eq_miss.mpr (Or.inr ⟨s, hdate, rfl⟩)
  have hrange : parse observe prefDepDateRange skipBlanks text s = .miss s :=
    follow_eq_miss.mpr (Or.inr ⟨s, hstart, rfl⟩)
  have hfields : parse observe demandFields skipBlanks text s = .miss s :=
    follow_eq_miss.mpr (Or.inr ⟨s, hrange, rfl⟩)
  exact follow_eq_miss.mpr (Or.inr ⟨s, hother, follow_eq_miss.mpr (Or.inr ⟨s, hfields, rfl⟩)⟩)

/-- **A file** passes on the descriptions of its rows, in order. -/
theorem FileOf.passes {rows : List (List Char)} {text : List Char} (hfile : FileOf K rows text) :
    ∀ {xs : List (Description K)} {s : ParserState K G Q} (l : List (Description K)),
      List.Forall₂ Describes rows xs → s.demand.Clean →
      ∃ v stop s', parse observe demandList skipBlanks text (s, l) = .hit v stop (s', l ++ xs) ∧
        skipBlanks stop = [] := by
  induction hfile with
  | @finish text hblank =>
    intro xs s l hxs hs
    cases hxs
    refine ⟨.none, text, s, ?_, hblank⟩
    rw [parse_observe_demandList, demandItem_miss hblank, List.append_nil]
    rfl
  | @other rows text rest hother _ ih =>
    intro xs s l hxs hs
    obtain ⟨v, hv⟩ := notToBeParsed_hit hother (s, l)
    obtain ⟨v', stop, s', hrest, hstop⟩ := ih l hxs hs
    refine ⟨v', stop, s', ?_, hstop⟩
    rw [parse_observe_demandList]
    exact follow_eq_hit.mpr (Or.inl
      ⟨v, rest, (s, l), follow_eq_hit.mpr (Or.inl ⟨v, rest, (s, l), hv, rfl⟩), hrest⟩)
  | @row rows rest row _ ih =>
    intro xs s l hxs hs
    cases hxs with
    | cons hx hxs =>
      obtain ⟨s₁, hitem, hs₁⟩ := hx.item hs l rest
      obtain ⟨v', stop, s', hrest, hstop⟩ := ih _ hxs hs₁
      refine ⟨v', stop, s', ?_, hstop⟩
      rw [parse_observe_demandList]
      refine follow_eq_hit.mpr (Or.inl ⟨.none, rest, _, hitem, ?_⟩)
      rw [hrest, List.append_assoc]
      rfl

lemma FileOf.descriptionsOf {rows : List (List Char)} {text : List Char}
    (hfile : FileOf K rows text) (hd : d.Clean) {xs : List (Description K)}
    (hxs : List.Forall₂ Describes rows xs)
    (w : World K G Q) : descriptionsOf text d w = some xs := by
  obtain ⟨v, stop, s', hparse, hstop⟩ := hfile.passes (s := ⟨d, w, []⟩) [] hxs hd
  unfold Trademgen.descriptionsOf
  rw [hparse]
  exact if_pos hstop

/-- **Rows do not leak** into one another: a file of rows that are each accepted alone, with
comments and ends of lines anywhere between them, passes on what the rows pass on alone, one after
the other. Each of them passes on what its own fields say. -/
theorem descriptionsOf_file (defaultDatePeriod : DatePeriod) (defaultDow : DoWStruct)
    (defaultCabinCode : String) {rows : List (List Char)} {text : List Char}
    (hrows : ∀ row ∈ rows, ∃ w : World K G Q,
      AcceptedRow (.make defaultDatePeriod defaultDow defaultCabinCode) w row)
    (hfile : FileOf K rows text) (w w' : World K G Q) :
    ∃ alone : List (List (Description K)),
      (rows.mapM fun row => descriptionsOf row
        (.make defaultDatePeriod defaultDow defaultCabinCode) w') = some alone ∧
      descriptionsOf text (.make defaultDatePeriod defaultDow defaultCabinCode) w
        = some alone.flatten ∧
      List.Forall₂ (fun row xs => ∃ (R : Row K) (v : Value K) (r : List Char) (x : Description K),
        Reads datum demandFields skipBlanks row v r R.events ∧ R.describe = .ok x ∧ xs = [x])
        rows alone := by
  have hd : (DemandStruct.make defaultDatePeriod defaultDow defaultCabinCode :
      DemandStruct K).Clean := DemandStruct.clean_make _ _ _
  obtain ⟨xs, hxs⟩ := exists_forall₂ fun row hrow => (hrows row hrow).choose_spec.describes hd
  refine ⟨xs.map fun x => [x], ?_, ?_, ?_⟩
  · refine mapM_eq_some (List.forall₂_map_right_iff.mpr (hxs.imp fun row x hx => ?_))
    have halone : FileOf K [row] (row ++ []) := .row row (.finish rfl)
    rw [List.append_nil] at halone
    exact halone.descriptionsOf hd (.cons hx .nil) w'
  · rw [hfile.descriptionsOf hd hxs w, ← List.flatMap_def, List.flatMap_singleton']
  · refine List.forall₂_map_right_iff.mpr (hxs.imp fun row x hx => ?_)
    obtain ⟨R, v, r, hr, -, hdescribe, -⟩ := hx
    exact ⟨R, v, r, x, hr, hdescribe, rfl⟩

end Rows

section Real

/-- The rows, each after a comment and an end of line. -/
def fileSample : List Char :=
  '/' :: '/' :: (['D', 'e', 'm', 'a', 'n', 'd'] ++ '\n' :: '\n' ::
    (firstRowSample ++ '\n' :: '/' :: '*' ::
    (['N', 'e', 'x', 't'] ++ '*' :: '/' :: '\n' :: (secondRowSample ++ [' ']))))

theorem descriptionsOf_file_sample :
    ∃ alone : List (List (Description ℝ)),
      ([firstRowSample, secondRowSample].mapM fun row => descriptionsOf row
        (.make ⟨0, 0⟩ ⟨List.replicate 7 true⟩ "Y") emptySample) = some alone ∧
      descriptionsOf fileSample (.make ⟨0, 0⟩ ⟨List.replicate 7 true⟩ "Y") emptySample
        = some alone.flatten := by
  have haccepted (row : List Char) (hrow : row ∈ [firstRowSample, secondRowSample]) :
      ∃ w : World ℝ (Tape ℝ) (SortedQueue ℝ),
        AcceptedRow (.make ⟨0, 0⟩ ⟨List.replicate 7 true⟩ "Y") w row := by
    refine ⟨emptySample, matchesAll_iff.mp ?_⟩
    revert row
    decide +kernel
  have hfile : FileOf ℝ [firstRowSample, secondRowSample] fileSample :=
    .lineComment (by simp) (.endOfLine (.row _ (.endOfLine (.blockComment (by decide)
      (.endOfLine (.row _ (.finish rfl)))))))
  obtain ⟨alone, hrows, htext, -⟩ := descriptionsOf_file ⟨0, 0⟩ ⟨List.replicate 7 true⟩ "Y"
    haccepted hfile emptySample emptySample
  exact ⟨alone, hrows, htext⟩

end Real

end Trademgen
