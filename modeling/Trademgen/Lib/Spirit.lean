import Mathlib

/-!
Expression grammars with a skipper and semantic actions.

A grammar is a value. Its interpreter runs an action as soon as the subject of the action has
matched, also when the match is given up later; an action may throw, or not return.
-/

set_option linter.unusedSectionVars false

namespace Spirit

/-! ### Grammars -/

/-- Grammars over the names `A` of their semantic actions. -/
inductive Grammar (A : Type)
  | charP (test : Char → Bool)
  /-- A number of so many digits, within bounds. -/
  | uintP (minDigits maxDigits low high : ℕ)
  /-- An unsigned real number. -/
  | urealP
  | eolP
  | endP
  | seq (p q : Grammar A)
  | alt (p q : Grammar A)
  /-- As many matches as there are. -/
  | star (p : Grammar A)
  | opt (p : Grammar A)
  /-- A match of `p` where `q` has none as long. -/
  | diff (p q : Grammar A)
  /-- A match without skipping inside. -/
  | lexeme (p : Grammar A)
  | act (p : Grammar A) (a : A)

namespace Grammar

variable {A : Type}

instance : AndThen (Grammar A) := ⟨fun p q => .seq p (q ())⟩
instance : OrElse (Grammar A) := ⟨fun p q => .alt p (q ())⟩

def ch (c : Char) : Grammar A := .charP (· = c)
def anychar : Grammar A := .charP fun _ => true

/-- Characters, one after the other. -/
def chseq (c : Char) : List Char → Grammar A
  | [] => ch c
  | d :: r => ch c >> chseq d r

/-- So many matches of `p`, one at least. -/
def repeatP (p : Grammar A) : ℕ → Grammar A
  | 0 => p
  | 1 => p
  | n + 1 => p >> repeatP p n

/-- A comment between two marks. -/
def comment (start close : Grammar A) : Grammar A :=
  .lexeme (start >> .star (.diff anychar close) >> close)

/-- A match takes at least one character. -/
def eats : Grammar A → Bool
  | charP _ => true
  | uintP minDigits _ _ _ => 0 < minDigits
  | urealP => true
  | eolP => true
  | endP => false
  | seq p q => p.eats || q.eats
  | alt p q => p.eats && q.eats
  | star _ => false
  | opt _ => false
  | diff p _ => p.eats
  | lexeme p => p.eats
  | act p _ => p.eats

/-- The actions of a grammar. -/
def acts : Grammar A → List A
  | charP _ => []
  | uintP _ _ _ _ => []
  | urealP => []
  | eolP => []
  | endP => []
  | seq p q => p.acts ++ q.acts
  | alt p q => p.acts ++ q.acts
  | star p => p.acts
  | opt p => p.acts
  | diff p q => p.acts ++ q.acts
  | lexeme p => p.acts
  | act p a => p.acts ++ [a]

end Grammar

/-! ### Numbers -/

/-- The number written by digits. -/
def number (ds : List Char) : ℕ := ds.foldl (fun n c => 10 * n + (c.toNat - '0'.toNat)) 0

def readUint (minDigits maxDigits low high : ℕ) (xs : List Char) : Option (ℕ × List Char) :=
  let ds := (xs.take maxDigits).takeWhile Char.isDigit
  if minDigits ≤ ds.length ∧ low ≤ number ds ∧ number ds ≤ high then
    some (number ds, xs.drop ds.length)
  else none

/-- Digits, one at least. -/
def readDigits (xs : List Char) : Option (ℕ × List Char) :=
  let ds := xs.takeWhile Char.isDigit
  if ds = [] then none else some (number ds, xs.dropWhile Char.isDigit)

/-- An integer with an optional sign. -/
def readInt (xs : List Char) : Option (ℤ × List Char) :=
  match xs with
  | [] => none
  | c :: r =>
    if c = '-' then (readDigits r).map fun p => (-(p.1 : ℤ), p.2)
    else if c = '+' then (readDigits r).map fun p => ((p.1 : ℤ), p.2)
    else (readDigits xs).map fun p => ((p.1 : ℤ), p.2)

section Real

variable {K : Type} [Field K]

/-- The exponent of a real number: once its letter is there, its integer has to be. -/
def readExponent (x : K) (xs : List Char) : Option (K × List Char) :=
  match xs with
  | [] => some (x, xs)
  | c :: r =>
    if c = 'e' ∨ c = 'E' then (readInt r).map fun p => (x * 10 ^ p.1, p.2)
    else some (x, xs)

/-- An unsigned real number: digits before the dot, after it, or both. -/
def readUreal (xs : List Char) : Option (K × List Char) :=
  let whole := xs.takeWhile Char.isDigit
  match xs.dropWhile Char.isDigit with
  | [] => if whole = [] then none else some (number whole, [])
  | c :: r =>
    if c = '.' then
      let frac := r.takeWhile Char.isDigit
      if whole = [] ∧ frac = [] then none
      else readExponent ((number whole : K) + number frac * 10 ^ (-(frac.length : ℤ)))
        (r.dropWhile Char.isDigit)
    else if whole = [] then none
    else readExponent (number whole : K) (c :: r)

end Real

/-- An end of line. -/
def readEol : List Char → Option (Unit × List Char)
  | '\r' :: '\n' :: r => some ((), r)
  | '\r' :: r => some ((), r)
  | '\n' :: r => some ((), r)
  | _ => none

/-! ### The interpreter -/

/-- The value of a match. -/
inductive Value (K : Type)
  | none
  | nat (n : ℕ)
  | real (x : K)

/-- What an action does. -/
inductive Effect (ε σ : Type)
  | done (s : σ)
  | threw (e : ε)
  | endless

inductive Result (K ε σ : Type)
  | hit (v : Value K) (rest : List Char) (s : σ)
  | miss (s : σ)
  | threw (e : ε)
  | endless

/-- What is done after a match, and after none. -/
def Result.follow {K ε σ : Type} (x : Result K ε σ)
    (hit : Value K → List Char → σ → Result K ε σ) (miss : σ → Result K ε σ) : Result K ε σ :=
  match x with
  | .hit v r s => hit v r s
  | .miss s => miss s
  | .threw e => .threw e
  | .endless => .endless

/-- A match once its action was run. -/
def Effect.result {K ε σ : Type} (v : Value K) (r : List Char) : Effect ε σ → Result K ε σ
  | .done s => .hit v r s
  | .threw e => .threw e
  | .endless => .endless

/-- What the actions do with the value of the match and the places it starts and ends at. -/
abbrev Actor (K A ε σ : Type) := A → Value K → List Char → List Char → σ → Effect ε σ

section Interpreter

variable {K A ε σ : Type}

/-- The matches of a star, up to a number of them. -/
def starLoop (f : List Char → σ → Result K ε σ) : ℕ → List Char → σ → Result K ε σ
  | 0, _, _ => .endless
  | n + 1, xs, s => (f xs s).follow (fun _ r s' => starLoop f n r s') fun s' => .hit .none xs s'

/-- A match with the rest that was read, or none. -/
def matched {α : Type} (value : α → Value K) (x : Option (α × List Char)) (s : σ) :
    Result K ε σ :=
  match x with
  | none => .miss s
  | some (a, r) => .hit (value a) r s

def readChar (test : Char → Bool) : List Char → Option (Unit × List Char)
  | [] => none
  | c :: r => if test c then some ((), r) else none

def readEnd : List Char → Option (Unit × List Char)
  | [] => some ((), [])
  | _ :: _ => none

variable [Field K]

def parse (I : Actor K A ε σ) :
    Grammar A → (List Char → List Char) → List Char → σ → Result K ε σ
  | .charP test, skip, xs, s => matched (fun _ => .none) (readChar test (skip xs)) s
  | .uintP minDigits maxDigits low high, skip, xs, s =>
    matched .nat (readUint minDigits maxDigits low high (skip xs)) s
  | .urealP, skip, xs, s => matched .real (readUreal (skip xs)) s
  | .eolP, skip, xs, s => matched (fun _ => .none) (readEol (skip xs)) s
  | .endP, skip, xs, s => matched (fun _ => .none) (readEnd (skip xs)) s
  | .seq p q, skip, xs, s =>
    (parse I p skip xs s).follow (fun _ r s' => parse I q skip r s') .miss
  | .alt p q, skip, xs, s => (parse I p skip xs s).follow .hit fun s' => parse I q skip xs s'
  | .star p, skip, xs, s => starLoop (parse I p skip) (xs.length + 1) xs s
  | .opt p, skip, xs, s => (parse I p skip xs s).follow .hit fun s' => .hit .none xs s'
  | .diff p q, skip, xs, s =>
    (parse I p skip xs s).follow
      (fun v r s' => (parse I q skip xs s').follow
        (fun _ r' s'' => if r.length < r'.length then .hit v r s'' else .miss s'')
        fun s'' => .hit v r s'')
      .miss
  | .lexeme p, skip, xs, s => parse I p id (skip xs) s
  | .act p a, skip, xs, s =>
    (parse I p skip (skip xs) s).follow
      (fun v r s' => (I a v (skip xs) r s').result v r) .miss

end Interpreter

/-! ### Lengths -/

lemma length_dropWhile_le {α : Type} (f : α → Bool) (l : List α) :
    (l.dropWhile f).length ≤ l.length := (List.dropWhile_sublist f).length_le

lemma length_dropWhile_lt {α : Type} {f : α → Bool} {l : List α} (h : l.takeWhile f ≠ []) :
    (l.dropWhile f).length < l.length := by
  have hsum : (l.takeWhile f).length + (l.dropWhile f).length = l.length := by
    rw [← List.length_append, List.takeWhile_append_dropWhile]
  have hpos := List.length_pos_of_ne_nil h
  omega

lemma length_readUint {a b low high n : ℕ} {xs r : List Char}
    (h : readUint a b low high xs = some (n, r)) : r.length + a ≤ xs.length := by
  unfold readUint at h
  dsimp only at h
  split_ifs at h with hc
  cases h
  have hle : ((xs.take b).takeWhile Char.isDigit).length ≤ xs.length :=
    ((List.takeWhile_sublist _).length_le).trans (by simp)
  rw [List.length_drop]
  omega

/-- A number that asks for a digit starts with one. -/
lemma readUint_head {a b low high n : ℕ} {xs r : List Char} (ha : 0 < a)
    (h : readUint a b low high xs = some (n, r)) : ∃ c t, xs = c :: t ∧ c.isDigit = true := by
  unfold readUint at h
  dsimp only at h
  split_ifs at h with hc
  have hpos : 0 < ((xs.take b).takeWhile Char.isDigit).length := ha.trans_le hc.1
  cases xs with
  | nil => simp at hpos
  | cons c t =>
    refine ⟨c, t, rfl, ?_⟩
    by_contra hdigit
    cases b with
    | zero => simp at hpos
    | succ b => simp [hdigit] at hpos

lemma length_readDigits {n : ℕ} {xs r : List Char} (h : readDigits xs = some (n, r)) :
    r.length < xs.length := by
  unfold readDigits at h
  dsimp only at h
  split_ifs at h with hc
  cases h
  exact length_dropWhile_lt hc

lemma length_readInt {n : ℤ} {xs r : List Char} (h : readInt xs = some (n, r)) :
    r.length ≤ xs.length := by
  cases xs with
  | nil => cases h
  | cons c xs =>
    unfold readInt at h
    dsimp only at h
    split_ifs at h <;> obtain ⟨p, hp, heq⟩ := Option.map_eq_some_iff.mp h <;> cases heq
    · exact (length_readDigits hp).le.trans (Nat.le_succ _)
    · exact (length_readDigits hp).le.trans (Nat.le_succ _)
    · exact (length_readDigits hp).le

section Real

variable {K : Type} [Field K]

lemma length_readExponent {x y : K} {xs r : List Char} (h : readExponent x xs = some (y, r)) :
    r.length ≤ xs.length := by
  cases xs with
  | nil =>
    cases h
    exact le_rfl
  | cons c xs =>
    unfold readExponent at h
    dsimp only at h
    split_ifs at h
    · obtain ⟨p, hp, heq⟩ := Option.map_eq_some_iff.mp h
      cases heq
      exact (length_readInt hp).trans (Nat.le_succ _)
    · cases h
      exact le_rfl

lemma length_readUreal {x : K} {xs r : List Char} (h : readUreal xs = some (x, r)) :
    r.length < xs.length := by
  unfold readUreal at h
  dsimp only at h
  have hle := length_dropWhile_le Char.isDigit xs
  cases hxs : xs.dropWhile Char.isDigit with
  | nil =>
    rw [hxs] at h
    dsimp only at h
    split_ifs at h with hw
    cases h
    exact hxs ▸ length_dropWhile_lt hw
  | cons c ys =>
    rw [hxs] at h hle
    dsimp only at h
    rw [List.length_cons] at hle
    split_ifs at h with hdot hw hw
    · have hys := length_dropWhile_le Char.isDigit ys
      have hr := length_readExponent h
      omega
    · have hr := length_readExponent h
      have hlt := length_dropWhile_lt hw
      rw [hxs] at hlt
      omega

end Real

section Sign

variable {K : Type} [Field K] [LinearOrder K] [IsStrictOrderedRing K]

lemma readExponent_nonneg {x y : K} {xs r : List Char} (hx : 0 ≤ x)
    (h : readExponent x xs = some (y, r)) : 0 ≤ y := by
  cases xs with
  | nil =>
    cases h
    exact hx
  | cons c xs =>
    unfold readExponent at h
    dsimp only at h
    split_ifs at h
    · obtain ⟨p, -, heq⟩ := Option.map_eq_some_iff.mp h
      cases heq
      exact mul_nonneg hx (zpow_nonneg (by norm_num) _)
    · cases h
      exact hx

/-- An unsigned real number is not negative. -/
lemma readUreal_nonneg {x : K} {xs r : List Char} (h : readUreal xs = some (x, r)) : 0 ≤ x := by
  have hpow (n : ℕ) : (0 : K) ≤ 10 ^ (-(n : ℤ)) := zpow_nonneg (by norm_num) _
  unfold readUreal at h
  dsimp only at h
  split at h
  · split_ifs at h
    cases h
    exact Nat.cast_nonneg _
  · split_ifs at h
    · exact readExponent_nonneg
        (add_nonneg (Nat.cast_nonneg _) (mul_nonneg (Nat.cast_nonneg _) (hpow _))) h
    · exact readExponent_nonneg (Nat.cast_nonneg _) h

end Sign

lemma length_readEol {u : Unit} {xs r : List Char} (h : readEol xs = some (u, r)) :
    r.length < xs.length := by
  unfold readEol at h
  split at h <;> cases h <;> simp

lemma readEol_eq_none {c : Char} (hr : c ≠ '\r') (hn : c ≠ '\n') (t : List Char) :
    readEol (c :: t) = none := by
  unfold readEol
  split
  · rename_i heq
    exact absurd (List.cons.inj heq).1 hr
  · rename_i heq
    exact absurd (List.cons.inj heq).1 hr
  · rename_i heq
    exact absurd (List.cons.inj heq).1 hn
  · rfl

lemma length_readChar {test : Char → Bool} {u : Unit} {xs r : List Char}
    (h : readChar test xs = some (u, r)) : r.length < xs.length := by
  cases xs with
  | nil => cases h
  | cons c xs =>
    unfold readChar at h
    dsimp only at h
    split_ifs at h
    cases h
    exact Nat.lt_succ_self _

lemma length_readEnd {u : Unit} {xs r : List Char} (h : readEnd xs = some (u, r)) :
    r.length ≤ xs.length := by
  cases xs with
  | nil =>
    cases h
    exact le_rfl
  | cons c xs => cases h

section Matches

variable {K A ε σ : Type}

lemma follow_eq_hit {x : Result K ε σ} {f : Value K → List Char → σ → Result K ε σ}
    {g : σ → Result K ε σ} {v : Value K} {r : List Char} {s : σ} :
    x.follow f g = .hit v r s ↔ (∃ v₁ r₁ s₁, x = .hit v₁ r₁ s₁ ∧ f v₁ r₁ s₁ = .hit v r s) ∨
      ∃ s₁, x = .miss s₁ ∧ g s₁ = .hit v r s := by
  cases x <;> simp [Result.follow]

lemma follow_eq_miss {x : Result K ε σ} {f : Value K → List Char → σ → Result K ε σ}
    {g : σ → Result K ε σ} {s : σ} :
    x.follow f g = .miss s ↔ (∃ v₁ r₁ s₁, x = .hit v₁ r₁ s₁ ∧ f v₁ r₁ s₁ = .miss s) ∨
      ∃ s₁, x = .miss s₁ ∧ g s₁ = .miss s := by
  cases x <;> simp [Result.follow]

lemma result_ne_miss {x : Effect ε σ} {v : Value K} {r : List Char} {s : σ} :
    (x.result v r : Result K ε σ) ≠ .miss s := by
  cases x <;> simp [Effect.result]

lemma matched_eq_hit {α : Type} {value : α → Value K} {x : Option (α × List Char)} {s s' : σ}
    {v : Value K} {r : List Char} :
    (matched value x s : Result K ε σ) = .hit v r s' ↔
      ∃ a, x = some (a, r) ∧ value a = v ∧ s = s' := by
  cases x with
  | none => simp [matched]
  | some p =>
    obtain ⟨a, r₁⟩ := p
    simp only [matched, Result.hit.injEq, Option.some.injEq, Prod.mk.injEq]
    refine ⟨?_, ?_⟩
    · rintro ⟨hv, rfl, hs⟩
      exact ⟨a, ⟨rfl, rfl⟩, hv, hs⟩
    · rintro ⟨a', ⟨rfl, rfl⟩, hv, hs⟩
      exact ⟨hv, rfl, hs⟩

lemma result_eq_hit {x : Effect ε σ} {v w : Value K} {r r' : List Char} {s : σ} :
    (x.result v r : Result K ε σ) = .hit w r' s ↔ x = .done s ∧ v = w ∧ r = r' := by
  cases x with
  | done t =>
    simp only [Effect.result, Result.hit.injEq, Effect.done.injEq]
    exact ⟨fun ⟨h₁, h₂, h₃⟩ => ⟨h₃, h₁, h₂⟩, fun ⟨h₁, h₂, h₃⟩ => ⟨h₂, h₃, h₁⟩⟩
  | threw e => simp [Effect.result]
  | endless => simp [Effect.result]

/-- A character is matched where it stands next. -/
lemma parse_ch_iff [Field K] {I : Actor K A ε σ} {c : Char} {skip : List Char → List Char}
    {xs r : List Char} {v : Value K} {s s' : σ} :
    parse I (Grammar.ch c) skip xs s = .hit v r s' ↔ skip xs = c :: r ∧ v = .none ∧ s' = s := by
  refine matched_eq_hit.trans ⟨?_, ?_⟩
  · rintro ⟨u, hu, hv, hs⟩
    cases hx : skip xs with
    | nil =>
      rw [hx] at hu
      cases hu
    | cons x ys =>
      rw [hx] at hu
      unfold readChar at hu
      dsimp only at hu
      split_ifs at hu with hc
      cases hu
      exact ⟨by rw [of_decide_eq_true hc], hv.symm, hs.symm⟩
  · rintro ⟨hx, rfl, rfl⟩
    refine ⟨(), ?_, rfl, rfl⟩
    rw [hx]
    exact if_pos (decide_eq_true rfl)

lemma parse_ch_miss [Field K] (I : Actor K A ε σ) {c d : Char} (skip : List Char → List Char)
    {xs t : List Char} (h : skip xs = d :: t) (hne : d ≠ c) (s : σ) :
    parse I (Grammar.ch c) skip xs s = .miss s := by
  have hread : readChar (fun x => decide (x = c)) (d :: t) = none :=
    if_neg (by simpa using hne)
  change matched _ (readChar (fun x => decide (x = c)) (skip xs)) s = .miss s
  rw [h, hread]
  rfl

lemma starLoop_length {f : List Char → σ → Result K ε σ}
    (hf : ∀ xs s v r s', f xs s = .hit v r s' → r.length ≤ xs.length) (n : ℕ) :
    ∀ {xs : List Char} {s : σ} {v : Value K} {r : List Char} {s' : σ},
      starLoop f n xs s = .hit v r s' → r.length ≤ xs.length := by
  induction n with
  | zero =>
    intro xs s v r s' h
    cases h
  | succ n ih =>
    intro xs s v r s' h
    rcases follow_eq_hit.mp h with ⟨v₁, r₁, s₁, hx, h⟩ | ⟨s₁, hx, h⟩
    · exact (ih h).trans (hf _ _ _ _ _ hx)
    · cases h
      exact le_rfl

variable [Field K] {I : Actor K A ε σ} {skip : List Char → List Char}

/-- **A match** never grows the text, and takes from it if the grammar eats. -/
theorem parse_length (hskip : ∀ xs, (skip xs).length ≤ xs.length) {p : Grammar A}
    {xs r : List Char} {s s' : σ} {v : Value K} (h : parse I p skip xs s = .hit v r s') :
    r.length + p.eats.toNat ≤ xs.length := by
  induction p generalizing skip xs s r s' v with
  | charP test =>
    obtain ⟨u, hr, -⟩ := matched_eq_hit.mp h
    exact (length_readChar hr).trans_le (hskip xs)
  | uintP a b low high =>
    obtain ⟨n, hn, -⟩ := matched_eq_hit.mp h
    have hr := length_readUint hn
    have hle := hskip xs
    cases a with
    | zero => exact hr.trans hle
    | succ a =>
      simp only [Grammar.eats, Nat.succ_pos, decide_true, Bool.toNat_true]
      omega
  | urealP =>
    obtain ⟨x, hx, -⟩ := matched_eq_hit.mp h
    exact (length_readUreal hx).trans_le (hskip xs)
  | eolP =>
    obtain ⟨u, hr, -⟩ := matched_eq_hit.mp h
    exact (length_readEol hr).trans_le (hskip xs)
  | endP =>
    obtain ⟨u, hr, -⟩ := matched_eq_hit.mp h
    exact (length_readEnd hr).trans (hskip xs)
  | seq p q ihp ihq =>
    rcases follow_eq_hit.mp h with ⟨v₁, r₁, s₁, hp, hq⟩ | ⟨s₁, -, hc⟩
    · have h₁ := ihp hskip hp
      have h₂ := ihq hskip hq
      have hsum : (p.eats || q.eats).toNat ≤ p.eats.toNat + q.eats.toNat := by
        cases p.eats <;> cases q.eats <;> simp
      change r.length + (p.eats || q.eats).toNat ≤ xs.length
      omega
    · cases hc
  | alt p q ihp ihq =>
    have hand : (p.eats && q.eats).toNat ≤ p.eats.toNat ∧
        (p.eats && q.eats).toNat ≤ q.eats.toNat := by
      cases p.eats <;> cases q.eats <;> simp
    change r.length + (p.eats && q.eats).toNat ≤ xs.length
    rcases follow_eq_hit.mp h with ⟨v₁, r₁, s₁, hp, heq⟩ | ⟨s₁, -, hq⟩
    · cases heq
      have h₁ := ihp hskip hp
      omega
    · have h₂ := ihq hskip hq
      omega
  | star p ih =>
    exact starLoop_length (fun _ _ _ _ _ hx => (Nat.le_add_right _ _).trans (ih hskip hx)) _ h
  | opt p ih =>
    rcases follow_eq_hit.mp h with ⟨v₁, r₁, s₁, hp, heq⟩ | ⟨s₁, -, heq⟩
    · cases heq
      exact (Nat.le_add_right _ _).trans (ih hskip hp)
    · cases heq
      exact le_rfl
  | diff p q ihp _ =>
    rcases follow_eq_hit.mp h with ⟨v₁, r₁, s₁, hp, hq⟩ | ⟨s₁, -, hc⟩
    · have h₁ := ihp hskip hp
      rcases follow_eq_hit.mp hq with ⟨v₂, r₂, s₂, -, hif⟩ | ⟨s₂, -, heq⟩
      · split_ifs at hif
        cases hif
        exact h₁
      · cases heq
        exact h₁
    · cases hc
  | lexeme p ih => exact (ih (fun _ => le_rfl) h).trans (hskip xs)
  | act p a ih =>
    rcases follow_eq_hit.mp h with ⟨v₁, r₁, s₁, hp, hi⟩ | ⟨s₁, -, hc⟩
    · obtain ⟨-, -, rfl⟩ := result_eq_hit.mp hi
      exact (ih hskip hp).trans (hskip xs)
    · cases hc

/-! ### Stars -/

lemma starLoop_fuel {f : List Char → σ → Result K ε σ}
    (hf : ∀ xs s v r s', f xs s = .hit v r s' → r.length < xs.length) (n : ℕ) :
    ∀ {m : ℕ} {xs : List Char} {s : σ}, xs.length < n → xs.length < m →
      starLoop f n xs s = starLoop f m xs s := by
  induction n with
  | zero =>
    intro m xs s hn
    omega
  | succ n ih =>
    intro m xs s hn hm
    obtain ⟨m, rfl⟩ : ∃ k, m = k + 1 := ⟨m - 1, by omega⟩
    unfold starLoop
    cases hx : f xs s with
    | hit v r s' =>
      have hlt := hf _ _ _ _ _ hx
      exact ih (by omega) (by omega)
    | miss s' => rfl
    | threw e => rfl
    | endless => rfl

/-- **A star** of a grammar that eats: a match and the star again, or no match and the end. -/
theorem parse_star (hskip : ∀ xs, (skip xs).length ≤ xs.length) {p : Grammar A}
    (hp : p.eats = true) (xs : List Char) (s : σ) :
    parse I (.star p) skip xs s = (parse I p skip xs s).follow
      (fun _ r s' => parse I (.star p) skip r s') fun s' => .hit .none xs s' := by
  have hlt : ∀ xs s v r s', parse I p skip xs s = .hit v r s' → r.length < xs.length := by
    intro xs s v r s' h
    have := parse_length hskip h
    rwa [hp, Bool.toNat_true] at this
  change starLoop (parse I p skip) (xs.length + 1) xs s = _
  rw [starLoop]
  cases hx : parse I p skip xs s with
  | hit v r s' => exact starLoop_fuel hlt _ (hlt _ _ _ _ _ hx) (Nat.lt_succ_self _)
  | miss s' => rfl
  | threw e => rfl
  | endless => rfl

/-! ### States -/

/-- The state left by a match or by none. -/
def Result.Holds (P : σ → Prop) : Result K ε σ → Prop
  | .hit _ _ s => P s
  | .miss s => P s
  | .threw _ => True
  | .endless => True

lemma Result.Holds.follow {P : σ → Prop} {x : Result K ε σ}
    {f : Value K → List Char → σ → Result K ε σ} {g : σ → Result K ε σ} (hx : x.Holds P)
    (hf : ∀ v r s, P s → (f v r s).Holds P) (hg : ∀ s, P s → (g s).Holds P) :
    (x.follow f g).Holds P := by
  cases x with
  | hit v r s => exact hf v r s hx
  | miss s => exact hg s hx
  | threw e => trivial
  | endless => trivial

lemma holds_matched {P : σ → Prop} {α : Type} {value : α → Value K}
    {x : Option (α × List Char)} {s : σ} (hs : P s) :
    (matched value x s : Result K ε σ).Holds P := by
  cases x <;> exact hs

/-- **What every action keeps** a grammar keeps, whether it matches or not. -/
theorem parse_holds {P : σ → Prop} {p : Grammar A}
    (hI : ∀ a ∈ p.acts, ∀ v f l s s', P s → I a v f l s = .done s' → P s') {xs : List Char}
    {s : σ} (hs : P s) : (parse I p skip xs s).Holds P := by
  induction p generalizing skip xs s with
  | charP test => exact holds_matched hs
  | uintP a b low high => exact holds_matched hs
  | urealP => exact holds_matched hs
  | eolP => exact holds_matched hs
  | endP => exact holds_matched hs
  | seq p q ihp ihq =>
    exact (ihp (fun a ha => hI a (List.mem_append_left _ ha)) hs).follow
      (fun _ _ _ h => ihq (fun a ha => hI a (List.mem_append_right _ ha)) h) fun _ h => h
  | alt p q ihp ihq =>
    exact (ihp (fun a ha => hI a (List.mem_append_left _ ha)) hs).follow
      (fun _ _ _ h => h) fun _ h => ihq (fun a ha => hI a (List.mem_append_right _ ha)) h
  | star p ih =>
    change (starLoop (parse I p skip) (xs.length + 1) xs s).Holds P
    induction xs.length + 1 generalizing xs s with
    | zero => trivial
    | succ n ihn => exact (ih hI hs).follow (fun _ _ _ h => ihn h) fun _ h => h
  | opt p ih => exact (ih hI hs).follow (fun _ _ _ h => h) fun _ h => h
  | diff p q ihp ihq =>
    refine (ihp (fun a ha => hI a (List.mem_append_left _ ha)) hs).follow (fun v r s' h => ?_)
      fun _ h => h
    refine (ihq (fun a ha => hI a (List.mem_append_right _ ha)) h).follow (fun _ r' s'' h' => ?_)
      fun _ h' => h'
    split_ifs
    · exact h'
    · exact h'
  | lexeme p ih => exact ih hI hs
  | act p a ih =>
    refine (ih (fun b hb => hI b (List.mem_append_left _ hb)) hs).follow (fun v r s' h => ?_)
      fun _ h => h
    cases hi : I a v (skip xs) r s' with
    | done s'' => exact hI a (List.mem_append_right _ (List.mem_singleton_self a)) _ _ _ _ _ h hi
    | threw e => trivial
    | endless => trivial

/-! ### Recognition -/

/-- The interpreter without effects. -/
def blind : Actor K A Empty Unit := fun _ _ _ _ _ => .done ()

/-- The rest of the text after a match, if there is one. -/
def recognise (K : Type) [Field K] (p : Grammar A) (skip : List Char → List Char)
    (xs : List Char) : Option (List Char) :=
  match parse (K := K) blind p skip xs () with
  | .hit _ r _ => some r
  | .miss _ => none
  | .endless => none

/-- The two results differ in their states at most, if the first is a match or none. -/
inductive Result.Agrees : Result K ε σ → Result K Empty Unit → Prop
  | hit (v r s u) : Agrees (.hit v r s) (.hit v r u)
  | miss (s u) : Agrees (.miss s) (.miss u)
  | threw (e y) : Agrees (.threw e) y
  | endless (y) : Agrees .endless y

lemma Result.Agrees.follow {x : Result K ε σ} {y : Result K Empty Unit}
    {f : Value K → List Char → σ → Result K ε σ} {g : σ → Result K ε σ}
    {f' : Value K → List Char → Unit → Result K Empty Unit} {g' : Unit → Result K Empty Unit}
    (h : x.Agrees y) (hf : ∀ v r s u, (f v r s).Agrees (f' v r u))
    (hg : ∀ s u, (g s).Agrees (g' u)) : (x.follow f g).Agrees (y.follow f' g') := by
  cases h with
  | hit v r s u => exact hf v r s u
  | miss s u => exact hg s u
  | threw e y => exact .threw _ _
  | endless y => exact .endless _

lemma agrees_matched {α : Type} {value : α → Value K} (x : Option (α × List Char)) (s : σ)
    (u : Unit) : (matched value x s : Result K ε σ).Agrees (matched value x u) := by
  cases x
  · exact .miss _ _
  · exact .hit _ _ _ _

/-- **Actions** decide nothing of a match but whether it is reached. -/
theorem parse_agrees (p : Grammar A) (xs : List Char) (s : σ) (u : Unit) :
    (parse I p skip xs s).Agrees (parse blind p skip xs u) := by
  induction p generalizing skip xs s u with
  | charP test => exact agrees_matched _ _ _
  | uintP a b low high => exact agrees_matched _ _ _
  | urealP => exact agrees_matched _ _ _
  | eolP => exact agrees_matched _ _ _
  | endP => exact agrees_matched _ _ _
  | seq p q ihp ihq => exact (ihp xs s u).follow (fun _ r s u => ihq r s u) fun _ _ => .miss _ _
  | alt p q ihp ihq =>
    exact (ihp xs s u).follow (fun _ _ _ _ => .hit _ _ _ _) fun s u => ihq xs s u
  | star p ih =>
    change (starLoop (parse I p skip) (xs.length + 1) xs s).Agrees
      (starLoop (parse blind p skip) (xs.length + 1) xs u)
    induction xs.length + 1 generalizing xs s u with
    | zero => exact .endless _
    | succ n ihn => exact (ih xs s u).follow (fun _ r s u => ihn r s u) fun _ _ => .hit _ _ _ _
  | opt p ih => exact (ih xs s u).follow (fun _ _ _ _ => .hit _ _ _ _) fun _ _ => .hit _ _ _ _
  | diff p q ihp ihq =>
    refine (ihp xs s u).follow (fun v r s u => ?_) fun _ _ => .miss _ _
    refine (ihq xs s u).follow (fun _ r' s u => ?_) fun _ _ => .hit _ _ _ _
    split_ifs
    · exact .hit _ _ _ _
    · exact .miss _ _
  | lexeme p ih => exact ih _ s u
  | act p a ih =>
    refine (ih _ s u).follow (fun v r s u => ?_) fun _ _ => .miss _ _
    cases I a v (skip xs) r s with
    | done s' => exact .hit _ _ _ _
    | threw e => exact .threw _ _
    | endless => exact .endless _

lemma recognise_of_hit {p : Grammar A} {xs r : List Char} {s s' : σ} {v : Value K}
    (h : parse I p skip xs s = .hit v r s') : recognise K p skip xs = some r := by
  have hagrees : (parse I p skip xs s).Agrees (parse (K := K) blind p skip xs ()) :=
    parse_agrees p xs s ()
  rw [h] at hagrees
  unfold recognise
  generalize parse (K := K) blind p skip xs () = y at hagrees
  cases hagrees
  rfl

lemma recognise_of_miss {p : Grammar A} {xs : List Char} {s s' : σ}
    (h : parse I p skip xs s = .miss s') : recognise K p skip xs = none := by
  have hagrees : (parse I p skip xs s).Agrees (parse (K := K) blind p skip xs ()) :=
    parse_agrees p xs s ()
  rw [h] at hagrees
  unfold recognise
  generalize parse (K := K) blind p skip xs () = y at hagrees
  cases hagrees
  rfl

/-! ### Comments -/

section Comment

open Grammar

variable {close start : Grammar A} {xs t r : List Char} {c : Char}

lemma parse_inside_step (xs : List Char) :
    parse (K := K) blind (.star (.diff anychar close)) id xs () =
      (parse (K := K) blind (.diff anychar close) id xs ()).follow
        (fun _ r s' => parse blind (.star (.diff anychar close)) id r s')
        fun s' => .hit .none xs s' :=
  parse_star (fun _ => le_rfl) rfl xs ()

lemma parse_anychar (c : Char) (t : List Char) :
    parse (K := K) blind (anychar : Grammar A) id (c :: t) () = .hit .none t () := rfl

/-- The inside of a comment, where nothing closes it. -/
lemma parse_inside (body : List Char)
    (hbody : ∀ k < body.length, parse (K := K) blind close id (body.drop k ++ xs) () = .miss ()) :
    parse (K := K) blind (.star (.diff anychar close)) id (body ++ xs) ()
      = parse blind (.star (.diff anychar close)) id xs () := by
  induction body with
  | nil => rfl
  | cons c body ih =>
    have hclose := hbody 0 (Nat.succ_pos _)
    have hitem : parse (K := K) blind (.diff anychar close) id (c :: (body ++ xs)) ()
        = .hit .none (body ++ xs) () :=
      follow_eq_hit.mpr (Or.inl ⟨_, _, (), parse_anychar c _,
        follow_eq_hit.mpr (Or.inr ⟨(), hclose, rfl⟩)⟩)
    rw [List.cons_append, parse_inside_step, hitem]
    exact ih fun k hk => hbody (k + 1) (Nat.succ_lt_succ hk)

/-- The inside ends where the comment is closed. -/
lemma parse_closing {v : Value K} (hclose : parse blind close id (c :: t) () = .hit v r ())
    (hr : r.length ≤ t.length) :
    parse (K := K) blind (.star (.diff anychar close)) id (c :: t) () = .hit .none (c :: t) () := by
  have hitem : parse (K := K) blind (.diff anychar close) id (c :: t) () = .miss () := by
    refine follow_eq_miss.mpr (Or.inl ⟨_, _, (), parse_anychar c _, follow_eq_miss.mpr
      (Or.inl ⟨_, _, (), hclose, ?_⟩)⟩)
    exact if_neg (not_lt.mpr hr)
  rw [parse_inside_step, hitem]
  rfl

/-- **A comment**: its opening, what does not close it, and its closing. -/
theorem parse_comment {body : List Char} {v v' : Value K}
    (hstart : parse blind start id xs () = .hit v' (body ++ c :: t) ())
    (hbody : ∀ k < body.length, parse (K := K) blind close id (body.drop k ++ c :: t) () = .miss ())
    (hclose : parse blind close id (c :: t) () = .hit v r ()) (hr : r.length ≤ t.length) :
    parse blind (comment start close) id xs () = .hit v r () := by
  have hinside : parse (K := K) blind (.star (.diff anychar close)) id (body ++ c :: t) ()
      = .hit .none (c :: t) () := (parse_inside body hbody).trans (parse_closing hclose hr)
  exact follow_eq_hit.mpr (Or.inl ⟨_, _, (), hstart, follow_eq_hit.mpr (Or.inl
    ⟨_, _, (), hinside, hclose⟩)⟩)

end Comment

end Matches

end Spirit
