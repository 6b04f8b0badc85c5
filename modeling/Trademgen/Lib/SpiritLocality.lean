import Trademgen.Lib.SpiritTrace

/-!
What a parse looks at.

A grammar that spares a character reads nothing past the first place where it stands, so that
more text after it changes nothing. Of a sequence that takes the character now and then, the
same holds of its matches that leave one in the rest.
-/

set_option linter.unusedSectionVars false

namespace Spirit

variable {K A ε σ : Type} {c : Char} {xs r t : List Char}

/-! ### Rests -/

lemma suffix_readUint {a b low high n : ℕ} (h : readUint a b low high xs = some (n, r)) :
    r <:+ xs := by
  unfold readUint at h
  dsimp only at h
  split_ifs at h
  cases h
  exact List.drop_suffix _ _

lemma suffix_readDigits {n : ℕ} (h : readDigits xs = some (n, r)) : r <:+ xs := by
  unfold readDigits at h
  dsimp only at h
  split_ifs at h
  cases h
  exact List.dropWhile_suffix _

lemma suffix_readInt {n : ℤ} (h : readInt xs = some (n, r)) : r <:+ xs := by
  cases xs with
  | nil => cases h
  | cons x xs =>
    unfold readInt at h
    dsimp only at h
    split_ifs at h <;> obtain ⟨p, hp, heq⟩ := Option.map_eq_some_iff.mp h <;> cases heq
    · exact (suffix_readDigits hp).trans (List.suffix_cons x xs)
    · exact (suffix_readDigits hp).trans (List.suffix_cons x xs)
    · exact suffix_readDigits hp

section Real

variable [Field K]

lemma suffix_readExponent {x y : K} (h : readExponent x xs = some (y, r)) : r <:+ xs := by
  cases xs with
  | nil =>
    cases h
    exact List.suffix_rfl
  | cons z xs =>
    unfold readExponent at h
    dsimp only at h
    split_ifs at h
    · obtain ⟨p, hp, heq⟩ := Option.map_eq_some_iff.mp h
      cases heq
      exact (suffix_readInt hp).trans (List.suffix_cons z xs)
    · cases h
      exact List.suffix_rfl

lemma suffix_readUreal {x : K} (h : readUreal xs = some (x, r)) : r <:+ xs := by
  unfold readUreal at h
  dsimp only at h
  have hd : xs.dropWhile Char.isDigit <:+ xs := List.dropWhile_suffix _
  cases hxs : xs.dropWhile Char.isDigit with
  | nil =>
    rw [hxs] at h hd
    dsimp only at h
    split_ifs at h
    cases h
    exact hd
  | cons y ys =>
    rw [hxs] at h hd
    dsimp only at h
    split_ifs at h
    · exact (suffix_readExponent h).trans
        ((List.dropWhile_suffix _).trans ((List.suffix_cons y ys).trans hd))
    · exact (suffix_readExponent h).trans hd

end Real

lemma suffix_readEol {u : Unit} (h : readEol xs = some (u, r)) : r <:+ xs := by
  unfold readEol at h
  split at h <;> cases h
  · exact List.suffix_append ['\r', '\n'] r
  · exact List.suffix_cons _ r
  · exact List.suffix_cons _ r

lemma suffix_readChar {test : Char → Bool} {u : Unit} (h : readChar test xs = some (u, r)) :
    r <:+ xs := by
  cases xs with
  | nil => cases h
  | cons x xs =>
    unfold readChar at h
    dsimp only at h
    split_ifs at h
    cases h
    exact List.suffix_cons x r

section Parse

variable [Field K] {I : Actor K A ε σ}

/-- **The rest** of a match is an end of the text. -/
theorem parse_suffix {p : Grammar A} {skip : List Char → List Char}
    (hskip : ∀ xs, skip xs <:+ xs) {v : Value K} {s s' : σ}
    (h : parse I p skip xs s = .hit v r s') : r <:+ xs := by
  induction p generalizing skip xs s r s' v with
  | charP test =>
    obtain ⟨u, hr, -⟩ := matched_eq_hit.mp h
    exact (suffix_readChar hr).trans (hskip xs)
  | uintP a b low high =>
    obtain ⟨n, hn, -⟩ := matched_eq_hit.mp h
    exact (suffix_readUint hn).trans (hskip xs)
  | urealP =>
    obtain ⟨x, hx, -⟩ := matched_eq_hit.mp h
    exact (suffix_readUreal hx).trans (hskip xs)
  | eolP =>
    obtain ⟨u, hr, -⟩ := matched_eq_hit.mp h
    exact (suffix_readEol hr).trans (hskip xs)
  | endP =>
    obtain ⟨u, hr, -⟩ := matched_eq_hit.mp h
    cases hx : skip xs with
    | nil =>
      rw [hx] at hr
      cases hr
      exact List.nil_suffix
    | cons x ys =>
      rw [hx] at hr
      cases hr
  | seq p q ihp ihq =>
    rcases follow_eq_hit.mp h with ⟨v₁, r₁, s₁, hp, hq⟩ | ⟨s₁, -, hc⟩
    · exact (ihq hskip hq).trans (ihp hskip hp)
    · cases hc
  | alt p q ihp ihq =>
    rcases follow_eq_hit.mp h with ⟨v₁, r₁, s₁, hp, heq⟩ | ⟨s₁, -, hq⟩
    · cases heq
      exact ihp hskip hp
    · exact ihq hskip hq
  | star p ih =>
    change starLoop (parse I p skip) (xs.length + 1) xs s = .hit v r s' at h
    generalize xs.length + 1 = n at h
    induction n generalizing xs s with
    | zero => cases h
    | succ n ihn =>
      rcases follow_eq_hit.mp h with ⟨v₁, r₁, s₁, hp, hrest⟩ | ⟨s₁, -, heq⟩
      · exact (ihn hrest).trans (ih hskip hp)
      · cases heq
        exact List.suffix_rfl
  | opt p ih =>
    rcases follow_eq_hit.mp h with ⟨v₁, r₁, s₁, hp, heq⟩ | ⟨s₁, -, heq⟩
    · cases heq
      exact ih hskip hp
    · cases heq
      exact List.suffix_rfl
  | diff p q ihp _ =>
    rcases follow_eq_hit.mp h with ⟨v₁, r₁, s₁, hp, hq⟩ | ⟨s₁, -, hc⟩
    · rcases follow_eq_hit.mp hq with ⟨v₂, r₂, s₂, -, hif⟩ | ⟨s₂, -, heq⟩
      · split_ifs at hif
        cases hif
        exact ihp hskip hp
      · cases heq
        exact ihp hskip hp
    · cases hc
  | lexeme p ih => exact (ih (fun _ => List.suffix_rfl) h).trans (hskip xs)
  | act p a ih =>
    rcases follow_eq_hit.mp h with ⟨v₁, r₁, s₁, hp, hi⟩ | ⟨s₁, -, hc⟩
    · obtain ⟨-, -, rfl⟩ := result_eq_hit.mp hi
      exact (ih hskip hp).trans (hskip xs)
    · cases hc

end Parse

/-! ### Readers -/

/-- A reader that stops before a character. -/
structure StopsBefore {α : Type} (c : Char) (f : List Char → Option (α × List Char)) : Prop where
  append : ∀ {xs : List Char} (t : List Char), c ∈ xs →
    f (xs ++ t) = (f xs).map fun p => (p.1, p.2 ++ t)
  mem : ∀ {xs r : List Char} {a : α}, c ∈ xs → f xs = some (a, r) → c ∈ r

section While

variable {p : Char → Bool}

lemma takeWhile_append (hc : p c = false) (h : c ∈ xs) :
    (xs ++ t).takeWhile p = xs.takeWhile p := by
  induction xs with
  | nil => cases h
  | cons x xs ih =>
    rw [List.cons_append, List.takeWhile_cons, List.takeWhile_cons]
    split_ifs with hx
    · rcases List.mem_cons.mp h with rfl | h
      · rw [hc] at hx
        cases hx
      · rw [ih h]
    · rfl

lemma dropWhile_append (hc : p c = false) (h : c ∈ xs) :
    (xs ++ t).dropWhile p = xs.dropWhile p ++ t := by
  induction xs with
  | nil => cases h
  | cons x xs ih =>
    rw [List.cons_append, List.dropWhile_cons, List.dropWhile_cons]
    split_ifs with hx
    · rcases List.mem_cons.mp h with rfl | h
      · rw [hc] at hx
        cases hx
      · exact ih h
    · rfl

lemma mem_dropWhile (hc : p c = false) (h : c ∈ xs) : c ∈ xs.dropWhile p := by
  rw [← List.takeWhile_append_dropWhile (p := p) (l := xs), List.mem_append] at h
  rcases h with h | h
  · have := List.mem_takeWhile_imp h
    rw [hc] at this
    cases this
  · exact h

end While

lemma stopsBefore_readChar {test : Char → Bool} (hc : test c = false) :
    StopsBefore c (readChar test) where
  append {xs} t h := by
    cases xs with
    | nil => cases h
    | cons x xs =>
      simp only [List.cons_append, readChar]
      split_ifs <;> rfl
  mem {xs r u} h hr := by
    cases xs with
    | nil => cases h
    | cons x xs =>
      unfold readChar at hr
      dsimp only at hr
      split_ifs at hr with hx
      cases hr
      rcases List.mem_cons.mp h with rfl | h
      · rw [hc] at hx
        cases hx
      · exact h

lemma stopsBefore_readUint (hc : c.isDigit = false) (a b low high : ℕ) :
    StopsBefore c (readUint a b low high) where
  append {xs} t h := by
    have htake : ((xs ++ t).take b).takeWhile Char.isDigit
        = (xs.take b).takeWhile Char.isDigit := by
      rw [List.take_append]
      rcases le_total b xs.length with hb | hb
      · rw [Nat.sub_eq_zero_of_le hb, List.take_zero, List.append_nil]
      · exact takeWhile_append hc (by rwa [List.take_of_length_le hb])
    have hle : ((xs.take b).takeWhile Char.isDigit).length ≤ xs.length :=
      ((List.takeWhile_sublist _).length_le).trans (by simp)
    unfold readUint
    dsimp only
    rw [htake, List.drop_append_of_le_length hle]
    split_ifs <;> rfl
  mem {xs r n} h hr := by
    unfold readUint at hr
    dsimp only at hr
    split_ifs at hr
    cases hr
    have hpre : (xs.take b).takeWhile Char.isDigit <+: xs :=
      (List.takeWhile_prefix _).trans (List.take_prefix _ _)
    obtain ⟨rest, hrest⟩ := hpre
    rw [← hrest, List.mem_append] at h
    rcases h with h | h
    · have := List.mem_takeWhile_imp h
      rw [hc] at this
      cases this
    · have hdrop : xs.drop ((xs.take b).takeWhile Char.isDigit).length = rest :=
        calc xs.drop ((xs.take b).takeWhile Char.isDigit).length
            = ((xs.take b).takeWhile Char.isDigit ++ rest).drop
                ((xs.take b).takeWhile Char.isDigit).length := by rw [hrest]
          _ = rest := List.drop_left
      rwa [hdrop]

lemma stopsBefore_readDigits (hc : c.isDigit = false) : StopsBefore c readDigits where
  append {xs} t h := by
    unfold readDigits
    dsimp only
    rw [takeWhile_append hc h, dropWhile_append hc h]
    split_ifs <;> rfl
  mem {xs r n} h hr := by
    unfold readDigits at hr
    dsimp only at hr
    split_ifs at hr
    cases hr
    exact mem_dropWhile hc h

/-- The characters a number can hold. -/
def isNumeric (c : Char) : Bool :=
  c.isDigit || c = '.' || c = 'e' || c = 'E' || c = '-' || c = '+'

lemma ne_of_isNumeric (hc : isNumeric c = false) :
    c.isDigit = false ∧ c ≠ '.' ∧ c ≠ 'e' ∧ c ≠ 'E' ∧ c ≠ '-' ∧ c ≠ '+' := by
  simpa [isNumeric, and_assoc] using hc

lemma stopsBefore_readInt (hc : isNumeric c = false) : StopsBefore c readInt where
  append {xs} t h := by
    obtain ⟨hdigit, -, -, -, hminus, hplus⟩ := ne_of_isNumeric hc
    have hd := stopsBefore_readDigits hdigit
    cases xs with
    | nil => cases h
    | cons x xs =>
      rw [List.cons_append]
      unfold readInt
      dsimp only
      split_ifs with h₁ h₂
      · rw [hd.append t (List.mem_of_ne_of_mem (h₁ ▸ hminus) h)]
        cases readDigits xs <;> rfl
      · rw [hd.append t (List.mem_of_ne_of_mem (h₂ ▸ hplus) h)]
        cases readDigits xs <;> rfl
      · rw [← List.cons_append, hd.append t h]
        cases readDigits (x :: xs) <;> rfl
  mem {xs r n} h hr := by
    obtain ⟨hdigit, -, -, -, hminus, hplus⟩ := ne_of_isNumeric hc
    have hd := stopsBefore_readDigits hdigit
    cases xs with
    | nil => cases h
    | cons x xs =>
      unfold readInt at hr
      dsimp only at hr
      split_ifs at hr with h₁ h₂ <;> obtain ⟨p, hp, heq⟩ := Option.map_eq_some_iff.mp hr <;>
        cases heq
      · exact hd.mem (List.mem_of_ne_of_mem (h₁ ▸ hminus) h) hp
      · exact hd.mem (List.mem_of_ne_of_mem (h₂ ▸ hplus) h) hp
      · exact hd.mem h hp

section Real

variable [Field K]

lemma stopsBefore_readExponent (hc : isNumeric c = false) (x : K) :
    StopsBefore c (readExponent x) where
  append {xs} t h := by
    have hi := stopsBefore_readInt hc
    obtain ⟨-, -, he, hE, -, -⟩ := ne_of_isNumeric hc
    cases xs with
    | nil => cases h
    | cons y xs =>
      rw [List.cons_append]
      unfold readExponent
      dsimp only
      split_ifs with hy
      · have hne : c ≠ y := by rcases hy with rfl | rfl <;> assumption
        rw [hi.append t (List.mem_of_ne_of_mem hne h)]
        cases readInt xs <;> rfl
      · rfl
  mem {xs r y} h hr := by
    have hi := stopsBefore_readInt hc
    obtain ⟨-, -, he, hE, -, -⟩ := ne_of_isNumeric hc
    cases xs with
    | nil => cases h
    | cons z xs =>
      unfold readExponent at hr
      dsimp only at hr
      split_ifs at hr with hz
      · obtain ⟨p, hp, heq⟩ := Option.map_eq_some_iff.mp hr
        cases heq
        have hne : c ≠ z := by rcases hz with rfl | rfl <;> assumption
        exact hi.mem (List.mem_of_ne_of_mem hne h) hp
      · cases hr
        exact h

lemma stopsBefore_readUreal (hc : isNumeric c = false) :
    StopsBefore c (readUreal : List Char → Option (K × List Char)) where
  append {xs} t h := by
    have hx (x : K) := stopsBefore_readExponent hc x
    obtain ⟨hdigit, hdot, -⟩ := ne_of_isNumeric hc
    have hmem := mem_dropWhile hdigit h
    unfold readUreal
    dsimp only
    rw [takeWhile_append hdigit h, dropWhile_append hdigit h]
    cases hd : xs.dropWhile Char.isDigit with
    | nil =>
      rw [hd] at hmem
      cases hmem
    | cons y ys =>
      rw [hd] at hmem
      rw [List.cons_append]
      dsimp only
      by_cases hy : y = '.'
      · have hys : c ∈ ys := List.mem_of_ne_of_mem (hy ▸ hdot) hmem
        rw [if_pos hy, if_pos hy, takeWhile_append hdigit hys, dropWhile_append hdigit hys]
        split_ifs
        · rfl
        · exact (hx _).append t (mem_dropWhile hdigit hys)
      · rw [if_neg hy, if_neg hy, ← List.cons_append]
        split_ifs
        · rfl
        · exact (hx _).append t hmem
  mem {xs r x} h hr := by
    have hx (x : K) := stopsBefore_readExponent hc x
    obtain ⟨hdigit, hdot, -⟩ := ne_of_isNumeric hc
    have hmem := mem_dropWhile hdigit h
    unfold readUreal at hr
    dsimp only at hr
    cases hd : xs.dropWhile Char.isDigit with
    | nil =>
      rw [hd] at hmem
      cases hmem
    | cons y ys =>
      rw [hd] at hmem hr
      dsimp only at hr
      split_ifs at hr with hy
      · have hys : c ∈ ys := List.mem_of_ne_of_mem (hy ▸ hdot) hmem
        exact (hx _).mem (mem_dropWhile hdigit hys) hr
      · exact (hx _).mem hmem hr

end Real

/-! ### Grammars -/

namespace Grammar

variable {A : Type}

/-- No match takes the character, and whether there is one is decided before it. Ends of lines and
of texts are left out. -/
def spares (c : Char) : Grammar A → Bool
  | charP test => !test c
  | uintP _ _ _ _ => true
  | urealP => true
  | eolP => false
  | endP => false
  | seq p q => p.spares c && q.spares c
  | alt p q => p.spares c && q.spares c
  | star p => p.spares c && p.eats
  | opt p => p.spares c
  | diff _ _ => false
  | lexeme p => p.spares c
  | act p _ => p.spares c

/-- A match is decided before the last place of the character, if it leaves that place. -/
def settles (c : Char) : Grammar A → Bool
  | charP _ => true
  | uintP _ _ _ _ => true
  | urealP => true
  | eolP => false
  | endP => false
  | seq p q => p.settles c && q.settles c
  | alt p q => (alt p q).spares c
  | star p => (star p).spares c
  | opt p => p.spares c
  | diff _ _ => false
  | lexeme p => p.spares c
  | act p _ => p.settles c

end Grammar

/-- A result for a text that goes on. -/
def Result.extend (t : List Char) : Result K ε σ → Result K ε σ
  | .hit v r s => .hit v (r ++ t) s
  | .miss s => .miss s
  | .threw e => .threw e
  | .endless => .endless

/-- The rest that is left by a match. -/
def Result.Leaves (P : List Char → Prop) : Result K ε σ → Prop
  | .hit _ r _ => P r
  | .miss _ => True
  | .threw _ => True
  | .endless => True

/-- A skipper that takes part of the beginning only, and stops before a character. -/
structure SkipsBefore (c : Char) (skip : List Char → List Char) : Prop where
  suffix : ∀ xs, skip xs <:+ xs
  append : ∀ {xs : List Char} (t : List Char), c ∈ xs → skip (xs ++ t) = skip xs ++ t
  mem : ∀ {xs : List Char}, c ∈ xs → c ∈ skip xs

lemma skipsBefore_id : SkipsBefore c id := ⟨fun _ => List.suffix_rfl, fun _ _ => rfl, id⟩

lemma skipsBefore_dropWhile {p : Char → Bool} (hc : p c = false) :
    SkipsBefore c (List.dropWhile p) :=
  ⟨fun _ => List.dropWhile_suffix p, fun _ => dropWhile_append hc, mem_dropWhile hc⟩

lemma Result.leaves_iff {x : Result K ε σ} {P : List Char → Prop} :
    x.Leaves P ↔ ∀ v r s, x = .hit v r s → P r := by
  cases x <;> simp [Result.Leaves]

lemma Result.follow_extend {x y : Result K ε σ} {P : List Char → Prop}
    {f f' : Value K → List Char → σ → Result K ε σ} {g g' : σ → Result K ε σ}
    (hx : y = x.extend t) (hP : x.Leaves P)
    (hf : ∀ v r s, P r → f' v (r ++ t) s = (f v r s).extend t)
    (hg : ∀ s, g' s = (g s).extend t) : y.follow f' g' = (x.follow f g).extend t := by
  subst hx
  cases x with
  | hit v r s => exact hf v r s hP
  | miss s => exact hg s
  | threw e => rfl
  | endless => rfl

lemma Result.Leaves.follow {x : Result K ε σ} {P Q : List Char → Prop}
    {f : Value K → List Char → σ → Result K ε σ} {g : σ → Result K ε σ} (hx : x.Leaves P)
    (hf : ∀ v r s, P r → (f v r s).Leaves Q) (hg : ∀ s, (g s).Leaves Q) :
    (x.follow f g).Leaves Q := by
  cases x with
  | hit v r s => exact hf v r s hx
  | miss s => exact hg s
  | threw e => trivial
  | endless => trivial

section Readers

variable {α : Type} {f : List Char → Option (α × List Char)} {value : α → Value K} {s : σ}

lemma StopsBefore.matched_append (hf : StopsBefore c f) (value : α → Value K) (t : List Char)
    (h : c ∈ xs) :
    (matched value (f (xs ++ t)) s : Result K ε σ) = (matched value (f xs) s).extend t := by
  rw [hf.append t h]
  cases f xs <;> rfl

lemma StopsBefore.leaves (hf : StopsBefore c f) (h : c ∈ xs) :
    (matched value (f xs) s : Result K ε σ).Leaves (c ∈ ·) := by
  cases hx : f xs with
  | none => trivial
  | some p => exact hf.mem h hx

end Readers

section Parse

variable [Field K] {I : Actor K A ε σ} {p : Grammar A} {skip : List Char → List Char}

/-- **A grammar that spares** a character leaves it in the text. -/
theorem parse_leaves (hc : isNumeric c = false) (hskip : SkipsBefore c skip)
    (hp : p.spares c = true) (h : c ∈ xs) (s : σ) : (parse I p skip xs s).Leaves (c ∈ ·) := by
  have hdigit : c.isDigit = false := (ne_of_isNumeric hc).1
  induction p generalizing skip xs s with
  | charP test =>
    exact (stopsBefore_readChar (by simpa [Grammar.spares] using hp)).leaves (hskip.mem h)
  | uintP a b low high => exact (stopsBefore_readUint hdigit a b low high).leaves (hskip.mem h)
  | urealP => exact (stopsBefore_readUreal hc).leaves (hskip.mem h)
  | eolP => cases hp
  | endP => cases hp
  | seq p q ihp ihq =>
    obtain ⟨hpp, hpq⟩ := Bool.and_eq_true_iff.mp hp
    exact (ihp hskip hpp h s).follow (fun _ _ s' hr => ihq hskip hpq hr s') fun _ => trivial
  | alt p q ihp ihq =>
    obtain ⟨hpp, hpq⟩ := Bool.and_eq_true_iff.mp hp
    exact (ihp hskip hpp h s).follow (fun _ _ _ hr => hr) fun s' => ihq hskip hpq h s'
  | star p ih =>
    have hpp := (Bool.and_eq_true_iff.mp hp).1
    change (starLoop (parse I p skip) (xs.length + 1) xs s).Leaves (c ∈ ·)
    induction xs.length + 1 generalizing xs s with
    | zero => trivial
    | succ n ihn => exact (ih hskip hpp h s).follow (fun _ _ s' hr => ihn hr s') fun _ => h
  | opt p ih => exact (ih hskip hp h s).follow (fun _ _ _ hr => hr) fun _ => h
  | diff p q ihp ihq => cases hp
  | lexeme p ih => exact ih skipsBefore_id hp (hskip.mem h) s
  | act p a ih =>
    refine (ih hskip hp (hskip.mem h) s).follow (fun v r s' hr => ?_) fun _ => trivial
    cases I a v (skip xs) r s' with
    | done s'' => exact hr
    | threw e => trivial
    | endless => trivial

/-- **More text** after a character that the grammar spares changes nothing. -/
theorem parse_append_of_spares
    (hI : ∀ a v f l t s, I a v (f ++ t) (l ++ t) s = I a v f l s)
    (hc : isNumeric c = false) (hskip : SkipsBefore c skip) (hp : p.spares c = true)
    (h : c ∈ xs) (t : List Char) (s : σ) :
    parse I p skip (xs ++ t) s = (parse I p skip xs s).extend t := by
  have hdigit : c.isDigit = false := (ne_of_isNumeric hc).1
  induction p generalizing skip xs s with
  | charP test =>
    have := (stopsBefore_readChar (by simpa [Grammar.spares] using hp)).matched_append
      (fun _ => (.none : Value K)) (ε := ε) (s := s) t (hskip.mem h)
    rwa [← hskip.append t h] at this
  | uintP a b low high =>
    have := (stopsBefore_readUint hdigit a b low high).matched_append
      (fun n => (.nat n : Value K)) (ε := ε) (s := s) t (hskip.mem h)
    rwa [← hskip.append t h] at this
  | urealP =>
    have := (stopsBefore_readUreal hc).matched_append
      (fun x => (.real x : Value K)) (ε := ε) (s := s) t (hskip.mem h)
    rwa [← hskip.append t h] at this
  | eolP => cases hp
  | endP => cases hp
  | seq p q ihp ihq =>
    obtain ⟨hpp, hpq⟩ := Bool.and_eq_true_iff.mp hp
    exact Result.follow_extend (ihp hskip hpp h s) (parse_leaves hc hskip hpp h s)
      (fun _ _ s' hr => ihq hskip hpq hr s') fun _ => rfl
  | alt p q ihp ihq =>
    obtain ⟨hpp, hpq⟩ := Bool.and_eq_true_iff.mp hp
    exact Result.follow_extend (ihp hskip hpp h s) (parse_leaves hc hskip hpp h s)
      (fun _ _ _ _ => rfl) fun s' => ihq hskip hpq h s'
  | star p ih =>
    obtain ⟨hpp, heats⟩ := Bool.and_eq_true_iff.mp hp
    have hlen (xs : List Char) : (skip xs).length ≤ xs.length := (hskip.suffix xs).length_le
    induction hl : xs.length using Nat.strong_induction_on generalizing xs s with
    | _ n ihn =>
      subst hl
      have hshorter : (parse I p skip xs s).Leaves fun r => c ∈ r ∧ r.length < xs.length := by
        refine Result.leaves_iff.mpr fun v r s' hr => ⟨?_, ?_⟩
        · exact Result.leaves_iff.mp (parse_leaves hc hskip hpp h s) v r s' hr
        · have := parse_length hlen hr
          rwa [heats, Bool.toNat_true] at this
      rw [parse_star hlen heats, parse_star hlen heats]
      exact Result.follow_extend (ih hskip hpp h s) hshorter
        (fun _ r s' hr => ihn r.length hr.2 hr.1 s' rfl) fun _ => rfl
  | opt p ih =>
    have hpp : p.spares c = true := hp
    exact Result.follow_extend (ih hskip hp h s) (parse_leaves hc hskip hpp h s)
      (fun _ _ _ _ => rfl) fun _ => rfl
  | diff p q ihp ihq => cases hp
  | lexeme p ih =>
    have := ih skipsBefore_id hp (hskip.mem h) s
    rwa [← hskip.append t h] at this
  | act p a ih =>
    have hpp : p.spares c = true := hp
    have hrec := ih hskip hp (hskip.mem h) s
    rw [← hskip.append t h] at hrec
    refine Result.follow_extend hrec (parse_leaves hc hskip hpp (hskip.mem h) s)
      (fun v r s' _ => ?_) fun _ => rfl
    rw [hskip.append t h, hI]
    cases I a v (skip xs) r s' <;> rfl

lemma parse_extends (hI : ∀ a v f l t s, I a v (f ++ t) (l ++ t) s = I a v f l s)
    (hc : isNumeric c = false) (hskip : SkipsBefore c skip) (hp : p.spares c = true)
    (h : c ∈ xs) {v : Value K} {s s' : σ} (hit : parse I p skip xs s = .hit v r s')
    (t : List Char) : parse I p skip (xs ++ t) s = .hit v (r ++ t) s' := by
  rw [parse_append_of_spares hI hc hskip hp h t s, hit]
  rfl

/-- **More text** after a character that is left by a match changes nothing. -/
theorem parse_append_of_settles
    (hI : ∀ a v f l t s, I a v (f ++ t) (l ++ t) s = I a v f l s)
    (hc : isNumeric c = false) (hskip : SkipsBefore c skip) (hp : p.settles c = true)
    {v : Value K} {s s' : σ} (h : parse I p skip xs s = .hit v r s') (hr : c ∈ r)
    (t : List Char) : parse I p skip (xs ++ t) s = .hit v (r ++ t) s' := by
  have hmem : c ∈ xs := (parse_suffix hskip.suffix h).mem hr
  induction p generalizing xs s v r s' with
  | charP test =>
    obtain ⟨u, hu, hv, hs⟩ := matched_eq_hit.mp h
    refine matched_eq_hit.mpr ⟨u, ?_, hv, hs⟩
    rw [hskip.append t hmem]
    cases hx : skip xs with
    | nil =>
      rw [hx] at hu
      cases hu
    | cons x ys =>
      rw [hx] at hu
      unfold readChar at hu
      dsimp only at hu
      split_ifs at hu with htest
      cases hu
      exact if_pos htest
  | uintP a b low high => exact parse_extends hI hc hskip rfl hmem h t
  | urealP => exact parse_extends hI hc hskip rfl hmem h t
  | eolP => cases hp
  | endP => cases hp
  | seq p q ihp ihq =>
    obtain ⟨hpp, hpq⟩ := Bool.and_eq_true_iff.mp hp
    rcases follow_eq_hit.mp h with ⟨v₁, r₁, s₁, h₁, h₂⟩ | ⟨s₁, -, hc⟩
    -- The character is still there after the first part, as it is after the second.
    · have hr₁ : c ∈ r₁ := (parse_suffix hskip.suffix h₂).mem hr
      exact follow_eq_hit.mpr (Or.inl
        ⟨v₁, r₁ ++ t, s₁, ihp hpp h₁ hr₁ hmem, ihq hpq h₂ hr hr₁⟩)
    · cases hc
  | alt p q ihp ihq => exact parse_extends hI hc hskip hp hmem h t
  | star p ih => exact parse_extends hI hc hskip hp hmem h t
  | opt p ih => exact parse_extends (p := .opt p) hI hc hskip hp hmem h t
  | diff p q ihp ihq => cases hp
  | lexeme p ih => exact parse_extends (p := .lexeme p) hI hc hskip hp hmem h t
  | act p a ih =>
    rcases follow_eq_hit.mp h with ⟨v₁, r₁, s₁, h₁, hi⟩ | ⟨s₁, -, hc⟩
    · obtain ⟨hdone, rfl, rfl⟩ := result_eq_hit.mp hi
      have hrec := ih hp h₁ hr (hskip.mem hmem)
      rw [← hskip.append t hmem] at hrec
      refine follow_eq_hit.mpr (Or.inl ⟨v₁, r₁ ++ t, s₁, hrec, ?_⟩)
      rw [hskip.append t hmem, hI, hdone]
      rfl
    · cases hc

end Parse

section Log

variable [Field K] {B : Type} {view : A → Value K → List Char → B}

lemma consumed_append (f l t : List Char) : consumed (f ++ t) (l ++ t) = consumed f l := by
  unfold consumed
  rw [List.length_append, List.length_append, Nat.add_sub_add_right,
    List.take_append_of_le_length (Nat.sub_le _ _)]

/-- The trace of a match stays the same when more text comes. -/
lemma Reads.append {p : Grammar A} {skip : List Char → List Char} {v : Value K}
    {es : List (Event A B)} (h : Reads view p skip xs v r es) (hc : isNumeric c = false)
    (hskip : SkipsBefore c skip) (hp : p.settles c = true) (hr : c ∈ r) (t : List Char) :
    Reads view p skip (xs ++ t) v (r ++ t) es :=
  parse_append_of_settles (fun a v f l t s => by simp only [log, consumed_append]) hc hskip hp h
    hr t

end Log

end Spirit
