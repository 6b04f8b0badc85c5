import Trademgen.Lib.Spirit

/-!
Traces of a parse: which actions ran, on what, and in which order.

The trace of a text is decided by the grammar alone. What any actor does to a state is what it
does along the trace, so that a property of the actions is a property of lists of events.
-/

set_option linter.unusedSectionVars false

namespace Spirit

variable {K A B ε σ τ : Type}

/-! ### States and effects -/

def Effect.map (f : σ → τ) : Effect ε σ → Effect ε τ
  | .done s => .done (f s)
  | .threw e => .threw e
  | .endless => .endless

def Effect.bind (x : Effect ε σ) (f : σ → Effect ε τ) : Effect ε τ :=
  match x with
  | .done s => f s
  | .threw e => .threw e
  | .endless => .endless

/-- No match, once an action was run. -/
def Effect.missed : Effect ε σ → Result K ε σ
  | .done s => .miss s
  | .threw e => .threw e
  | .endless => .endless

def Result.map (f : σ → τ) : Result K ε σ → Result K ε τ
  | .hit v r s => .hit v r (f s)
  | .miss s => .miss (f s)
  | .threw e => .threw e
  | .endless => .endless

lemma Result.map_follow {f : σ → τ} {x : Result K ε σ}
    {h : Value K → List Char → σ → Result K ε σ} {m : σ → Result K ε σ}
    {h' : Value K → List Char → τ → Result K ε τ} {m' : τ → Result K ε τ}
    (hh : ∀ v r s, h' v r (f s) = (h v r s).map f) (hm : ∀ s, m' (f s) = (m s).map f) :
    (x.map f).follow h' m' = (x.follow h m).map f := by
  cases x with
  | hit v r s => exact hh v r s
  | miss s => exact hm s
  | threw e => rfl
  | endless => rfl

lemma map_matched {α : Type} (f : σ → τ) (value : α → Value K) (x : Option (α × List Char))
    (s : σ) :
    (matched value x (f s) : Result K ε τ) = (matched value x s : Result K ε σ).map f := by
  cases x <;> rfl

section Map

variable [Field K] {I : Actor K A ε σ} {J : Actor K A ε τ} {f : σ → τ}

/-- **A change of state** that the actions do not notice, a parse does not notice. -/
theorem parse_map (hI : ∀ a v l r s, J a v l r (f s) = (I a v l r s).map f) (p : Grammar A)
    (skip : List Char → List Char) (xs : List Char) (s : σ) :
    parse J p skip xs (f s) = (parse I p skip xs s).map f := by
  induction p generalizing skip xs s with
  | charP test => exact map_matched f _ _ s
  | uintP a b low high => exact map_matched f _ _ s
  | urealP => exact map_matched f _ _ s
  | eolP => exact map_matched f _ _ s
  | endP => exact map_matched f _ _ s
  | seq p q ihp ihq =>
    simp only [parse, ihp]
    exact Result.map_follow (fun _ r s => ihq skip r s) fun _ => rfl
  | alt p q ihp ihq =>
    simp only [parse, ihp]
    exact Result.map_follow (fun _ _ _ => rfl) fun s => ihq skip xs s
  | star p ih =>
    change starLoop (parse J p skip) (xs.length + 1) xs (f s)
      = (starLoop (parse I p skip) (xs.length + 1) xs s).map f
    induction xs.length + 1 generalizing xs s with
    | zero => rfl
    | succ n ihn =>
      simp only [starLoop, ih]
      exact Result.map_follow (fun _ r s => ihn r s) fun _ => rfl
  | opt p ih =>
    simp only [parse, ih]
    exact Result.map_follow (fun _ _ _ => rfl) fun _ => rfl
  | diff p q ihp ihq =>
    simp only [parse, ihp]
    refine Result.map_follow (fun v r s => ?_) fun _ => rfl
    rw [ihq]
    refine Result.map_follow (fun _ r' s => ?_) fun _ => rfl
    split_ifs <;> rfl
  | lexeme p ih => exact ih id (skip xs) s
  | act p a ih =>
    simp only [parse, ih]
    refine Result.map_follow (fun v r s => ?_) fun _ => rfl
    rw [hI]
    cases I a v (skip xs) r s <;> rfl

end Map

/-! ### Numbers in another field -/

def Value.map {L : Type} (f : K → L) : Value K → Value L
  | .none => .none
  | .nat n => .nat n
  | .real x => .real (f x)

def Result.mapValue {L : Type} (f : K → L) : Result K ε σ → Result L ε σ
  | .hit v r s => .hit (v.map f) r s
  | .miss s => .miss s
  | .threw e => .threw e
  | .endless => .endless

lemma Result.mapValue_follow {L : Type} {f : K → L} {x : Result K ε σ}
    {h : Value K → List Char → σ → Result K ε σ} {m : σ → Result K ε σ}
    {h' : Value L → List Char → σ → Result L ε σ} {m' : σ → Result L ε σ}
    (hh : ∀ v r s, h' (v.map f) r s = (h v r s).mapValue f) (hm : ∀ s, m' s = (m s).mapValue f) :
    (x.mapValue f).follow h' m' = (x.follow h m).mapValue f := by
  cases x with
  | hit v r s => exact hh v r s
  | miss s => exact hm s
  | threw e => rfl
  | endless => rfl

section Cast

variable {L : Type} [Field K] [Field L] (φ : K →+* L)

lemma readExponent_map (x : K) (xs : List Char) :
    readExponent (φ x) xs = (readExponent x xs).map (Prod.map φ id) := by
  cases xs with
  | nil => rfl
  | cons c r =>
    unfold readExponent
    dsimp only
    split_ifs
    · cases readInt r <;> simp [map_ofNat φ 10]
    · rfl

lemma readUreal_map (xs : List Char) :
    (readUreal xs : Option (L × List Char)) = (readUreal xs).map (Prod.map φ id) := by
  unfold readUreal
  dsimp only
  cases xs.dropWhile Char.isDigit with
  | nil => split_ifs <;> simp
  | cons c r =>
    dsimp only
    split_ifs
    · rfl
    · simp [← readExponent_map, map_ofNat φ 10]
    · rfl
    · simp [← readExponent_map]

/-- **The numbers** of a text are taken in any field alike. -/
theorem parse_mapValue (J : Actor L A ε σ) (p : Grammar A) (skip : List Char → List Char)
    (xs : List Char) (s : σ) :
    parse J p skip xs s = (parse (fun a v => J a (v.map φ)) p skip xs s).mapValue φ := by
  induction p generalizing skip xs s with
  | charP test =>
    simp only [parse]
    cases readChar test (skip xs) <;> rfl
  | uintP a b low high =>
    simp only [parse]
    cases readUint a b low high (skip xs) <;> rfl
  | urealP =>
    simp only [parse, readUreal_map φ]
    cases (readUreal (skip xs) : Option (K × List Char)) <;> rfl
  | eolP =>
    simp only [parse]
    cases readEol (skip xs) <;> rfl
  | endP =>
    simp only [parse]
    cases readEnd (skip xs) <;> rfl
  | seq p q ihp ihq =>
    simp only [parse]
    rw [ihp]
    exact Result.mapValue_follow (fun _ r s => ihq skip r s) fun _ => rfl
  | alt p q ihp ihq =>
    simp only [parse]
    rw [ihp]
    exact Result.mapValue_follow (fun _ _ _ => rfl) fun s => ihq skip xs s
  | star p ih =>
    change starLoop (parse J p skip) (xs.length + 1) xs s
      = (starLoop (parse (fun a v => J a (v.map φ)) p skip) (xs.length + 1) xs s).mapValue φ
    induction xs.length + 1 generalizing xs s with
    | zero => rfl
    | succ n ihn =>
      simp only [starLoop]
      rw [ih]
      exact Result.mapValue_follow (fun _ r s => ihn r s) fun _ => rfl
  | opt p ih =>
    simp only [parse]
    rw [ih]
    exact Result.mapValue_follow (fun _ _ _ => rfl) fun _ => rfl
  | diff p q ihp ihq =>
    simp only [parse]
    rw [ihp]
    refine Result.mapValue_follow (fun v r s => ?_) fun _ => rfl
    rw [ihq]
    refine Result.mapValue_follow (fun _ r' s => ?_) fun _ => rfl
    split_ifs <;> rfl
  | lexeme p ih => exact ih id (skip xs) s
  | act p a ih =>
    simp only [parse]
    rw [ih]
    refine Result.mapValue_follow (fun v r s => ?_) fun _ => rfl
    cases J a (v.map φ) (skip xs) r s <;> rfl

end Cast

/-! ### Traces -/

/-- An action that ran, with what it was given of its match. -/
structure Event (A B : Type) where
  action : A
  datum : B

/-- The text between two places. -/
def consumed (f l : List Char) : List Char := f.take (f.length - l.length)

section Log

-- What an action is given of the value and the text of its match.
variable (view : A → Value K → List Char → B)

/-- The actor that writes down what it is asked to do. -/
def log : Actor K A Empty (List (Event A B)) := fun a v f l es =>
  .done (es ++ [⟨a, view a v (consumed f l)⟩])

variable [Field K]

lemma parse_log (p : Grammar A) (skip : List Char → List Char) (xs : List Char)
    (es : List (Event A B)) :
    parse (log view) p skip xs es = (parse (log view) p skip xs []).map (es ++ ·) := by
  have h := parse_map (I := log view) (J := log view) (f := (es ++ ·))
    (fun a v l r s => by simp [log, Effect.map, List.append_assoc]) p skip xs []
  rwa [List.append_nil] at h

/-- The grammar matches, with these events. -/
def Reads (p : Grammar A) (skip : List Char → List Char) (xs : List Char) (v : Value K)
    (r : List Char) (es : List (Event A B)) : Prop :=
  parse (log view) p skip xs [] = .hit v r es

variable {view} {p q : Grammar A} {skip : List Char → List Char} {xs r : List Char} {v : Value K}
  {es : List (Event A B)}

lemma parse_log_hit {e₀ : List (Event A B)} :
    parse (log view) p skip xs e₀ = .hit v r es ↔
      ∃ e, Reads view p skip xs v r e ∧ es = e₀ ++ e := by
  rw [parse_log]
  unfold Reads
  cases parse (log view) p skip xs [] with
  | hit v₁ r₁ e₁ =>
    simp only [Result.map, Result.hit.injEq]
    refine ⟨?_, ?_⟩
    · rintro ⟨rfl, rfl, rfl⟩
      exact ⟨e₁, ⟨rfl, rfl, rfl⟩, rfl⟩
    · rintro ⟨e, ⟨rfl, rfl, rfl⟩, rfl⟩
      exact ⟨rfl, rfl, rfl⟩
  | miss e₁ => simp [Result.map]
  | threw e₁ => exact e₁.elim
  | endless => simp [Result.map]

lemma reads_seq : Reads view (.seq p q) skip xs v r es ↔ ∃ v₁ r₁ e₁ e₂,
    Reads view p skip xs v₁ r₁ e₁ ∧ Reads view q skip r₁ v r e₂ ∧ es = e₁ ++ e₂ := by
  refine ⟨fun h => ?_, ?_⟩
  · rcases follow_eq_hit.mp h with ⟨v₁, r₁, e₁, hp, hq⟩ | ⟨e₁, -, hc⟩
    · obtain ⟨e₂, hq', rfl⟩ := parse_log_hit.mp hq
      exact ⟨v₁, r₁, e₁, e₂, hp, hq', rfl⟩
    · cases hc
  · rintro ⟨v₁, r₁, e₁, e₂, hp, hq, rfl⟩
    exact follow_eq_hit.mpr (Or.inl ⟨v₁, r₁, e₁, hp, parse_log_hit.mpr ⟨e₂, hq, rfl⟩⟩)

lemma reads_act {a : A} : Reads view (.act p a) skip xs v r es ↔ ∃ e,
    Reads view p skip (skip xs) v r e ∧ es = e ++ [⟨a, view a v (consumed (skip xs) r)⟩] := by
  refine ⟨fun h => ?_, ?_⟩
  · rcases follow_eq_hit.mp h with ⟨v₁, r₁, e₁, hp, ha⟩ | ⟨e₁, -, hc⟩
    · cases ha
      exact ⟨e₁, hp, rfl⟩
    · cases hc
  · rintro ⟨e, hp, rfl⟩
    exact follow_eq_hit.mpr (Or.inl ⟨v, r, e, hp, rfl⟩)

/-- A reading, with its numbers taken in another field. -/
lemma Reads.mapValue {L C : Type} [Field L] (φ : K →+* L) {view' : A → Value L → List Char → C}
    {g : B → C} (hview : ∀ a v t, view' a (v.map φ) t = g (view a v t))
    (h : Reads view p skip xs v r es) :
    Reads view' p skip xs (v.map φ) r (es.map fun e => ⟨e.action, g e.datum⟩) := by
  have hmap := parse_map (I := log view) (J := fun a v => log view' a (v.map φ))
    (f := List.map fun e => ⟨e.action, g e.datum⟩)
    (fun a v l r s => by simp [log, Effect.map, hview]) p skip xs []
  unfold Reads at h ⊢
  rw [h] at hmap
  rw [parse_mapValue φ, show parse (fun a v => log view' a (v.map φ)) p skip xs []
    = _ from hmap]
  rfl

lemma reads_lexeme :
    Reads view (.lexeme p) skip xs v r es ↔ Reads view p id (skip xs) v r es := Iff.rfl

/-- A grammar without actions leaves no event. -/
lemma holds_silent (view : A → Value K → List Char → B) (skip : List Char → List Char)
    (xs : List Char) (hp : p.acts = []) :
    (parse (log view) p skip xs []).Holds (· = []) :=
  parse_holds (fun a ha => by rw [hp] at ha; cases ha) rfl

lemma Reads.silent (h : Reads view p skip xs v r es) (hp : p.acts = []) : es = [] := by
  have hs := holds_silent view skip xs hp
  unfold Reads at h
  rwa [h] at hs

lemma reads_ch {c : Char} :
    Reads view (Grammar.ch c) skip xs v r es ↔ skip xs = c :: r ∧ v = .none ∧ es = [] :=
  parse_ch_iff

/-- Two parts with a character in between. -/
lemma reads_between {c : Char} : Reads view (p >> Grammar.ch c >> q) skip xs v r es ↔
    ∃ v₁ r₁ e₁ r₂ e₂, Reads view p skip xs v₁ r₁ e₁ ∧ skip r₁ = c :: r₂ ∧
      Reads view q skip r₂ v r e₂ ∧ es = e₁ ++ e₂ := by
  refine reads_seq.trans ⟨?_, ?_⟩
  · rintro ⟨v₁, r₁, e₁, e₂, hp, hcq, rfl⟩
    obtain ⟨v₂, r₂, ec, e₂, hc, hq, rfl⟩ := reads_seq.mp hcq
    obtain ⟨hr, rfl, rfl⟩ := reads_ch.mp hc
    exact ⟨v₁, r₁, e₁, r₂, e₂, hp, hr, hq, rfl⟩
  · rintro ⟨v₁, r₁, e₁, r₂, e₂, hp, hr, hq, rfl⟩
    exact ⟨v₁, r₁, e₁, e₂, hp,
      reads_seq.mpr ⟨.none, r₂, [], e₂, reads_ch.mpr ⟨hr, rfl, rfl⟩, hq, rfl⟩, rfl⟩

/-- What is recognised is what is read. -/
lemma recognise_iff (view : A → Value K → List Char → B) :
    recognise K p skip xs = some r ↔ ∃ v es, Reads view p skip xs v r es := by
  have hblind := parse_map (I := log view) (J := blind) (f := fun _ => ())
    (fun _ _ _ _ _ => rfl) p skip xs []
  unfold recognise Reads
  rw [hblind]
  cases parse (log view) p skip xs [] with
  | hit v₁ r₁ es => simp [Result.map]
  | miss es => simp [Result.map]
  | threw e => exact e.elim
  | endless => simp [Result.map]

/-- No event is left where the grammar does not match. -/
def Quiet (view : A → Value K → List Char → B) (p : Grammar A) (skip : List Char → List Char)
    (xs : List Char) : Prop :=
  ∀ es : List (Event A B), parse (log view) p skip xs [] = .miss es → es = []

lemma quiet_silent (hp : p.acts = []) : Quiet view p skip xs := by
  intro es h
  have hs := holds_silent view skip xs hp
  rwa [h] at hs

lemma quiet_act {a : A} (hp : Quiet view p skip (skip xs)) : Quiet view (.act p a) skip xs := by
  intro es h
  rcases follow_eq_miss.mp h with ⟨v₁, r₁, e₁, -, hc⟩ | ⟨e₁, hm, heq⟩
  · cases hc
  · cases heq
    exact hp _ hm

/-- A part without actions, then one that leaves nothing. -/
lemma quiet_seq (hp : p.acts = []) (hq : ∀ r, Quiet view q skip r) :
    Quiet view (.seq p q) skip xs := by
  intro es h
  rcases follow_eq_miss.mp h with ⟨v₁, r₁, e₁, hr, hm⟩ | ⟨e₁, hm, heq⟩
  · obtain rfl := Reads.silent hr hp
    exact hq r₁ es hm
  · cases heq
    exact quiet_silent hp _ hm

/-- What begins with a character is quiet where another one stands. -/
lemma quiet_of_ne {c d : Char} (hr : skip xs = d :: r) (hne : d ≠ c) :
    Quiet view (Grammar.ch c >> q) skip xs := by
  intro es h
  rcases follow_eq_miss.mp h with ⟨v₁, r₁, e₁, hc, -⟩ | ⟨e₁, hm, heq⟩
  · have hc' := (reads_ch.mp (show Reads view (Grammar.ch c) skip xs v₁ r₁ e₁ from hc)).1
    rw [hr] at hc'
    exact absurd (List.cons.inj hc').1 hne
  · cases heq
    exact quiet_silent rfl _ hm

/-- An option that is not taken leaves no event and takes no text. -/
lemma Reads.opt (h : Reads view (.opt p) skip xs v r es) (hp : Quiet view p skip xs) :
    Reads view p skip xs v r es ∨ r = xs ∧ es = [] := by
  rcases follow_eq_hit.mp h with ⟨v₁, r₁, e₁, hr, heq⟩ | ⟨e₁, hm, heq⟩
  · cases heq
    exact Or.inl hr
  · cases heq
    exact Or.inr ⟨rfl, hp _ hm⟩

/-- **A star** that leaves nothing at its end: its events are those of its items, in order. -/
lemma Reads.star {α : Type} {f : α → List (Event A B)}
    (hskip : ∀ xs, (skip xs).length ≤ xs.length) (heats : p.eats = true)
    (hitem : ∀ {xs v r es}, Reads view p skip xs v r es → ∃ x, es = f x)
    (h : Reads view (.star p) skip xs v r es) (hstop : Quiet view p skip r) :
    ∃ l : List α, es = l.flatMap f := by
  induction hlen : xs.length using Nat.strong_induction_on generalizing xs es with
  | _ n ih =>
    subst hlen
    unfold Reads at h
    rw [parse_star hskip heats] at h
    rcases follow_eq_hit.mp h with ⟨v₁, r₁, e₁, hp, hrest⟩ | ⟨e₁, hm, heq⟩
    · have hlt : r₁.length < xs.length := by
        have := parse_length hskip hp
        rwa [heats, Bool.toNat_true] at this
      obtain ⟨e₂, hrest', rfl⟩ := parse_log_hit.mp hrest
      obtain ⟨x, rfl⟩ := hitem hp
      obtain ⟨l, rfl⟩ := ih _ hlt hrest' rfl
      exact ⟨x :: l, rfl⟩
    · cases heq
      exact ⟨[], hstop _ hm⟩

end Log

/-! ### Replay -/

/-- What an actor does along a trace. -/
def replay (J : A → B → σ → Effect ε σ) : List (Event A B) → σ → Effect ε σ
  | [], s => .done s
  | e :: es, s => (J e.action e.datum s).bind (replay J es)

section Replay

variable {J : A → B → σ → Effect ε σ}

lemma replay_append (es es' : List (Event A B)) (s : σ) :
    replay J (es ++ es') s = (replay J es s).bind (replay J es') := by
  induction es generalizing s with
  | nil => rfl
  | cons e es ih =>
    simp only [List.cons_append, replay]
    cases J e.action e.datum s with
    | done t => exact ih t
    | threw e => rfl
    | endless => rfl

variable (J) in
/-- The second result is what the actor makes of the trace of the first. -/
inductive Replayed (s : σ) : Result K Empty (List (Event A B)) → Result K ε σ → Prop
  | hit (v r es) : Replayed s (.hit v r es) ((replay J es s).result v r)
  | miss (es) : Replayed s (.miss es) (replay J es s).missed
  | endless : Replayed s .endless .endless
  /-- An actor can throw before the place where the parse has no end. -/
  | threw (e) : Replayed s .endless (.threw e)

/-- A trace is replayed by replaying its beginning, and the rest from where that leads. -/
lemma Replayed.append {s : σ} (e₁ : List (Event A B)) {X : Result K Empty (List (Event A B))}
    {x : σ → Result K ε σ} (h : ∀ t, Replayed J t X (x t)) :
    Replayed J s (X.map (e₁ ++ ·))
      (match replay J e₁ s with
        | .done t => x t
        | .threw e => .threw e
        | .endless => .endless) := by
  have hhit (v : Value K) (r : List Char) (e₂ : List (Event A B)) :
      Replayed J s (.hit v r (e₁ ++ e₂)) (((replay J e₁ s).bind (replay J e₂)).result v r) := by
    rw [← replay_append]
    exact .hit v r _
  have hmiss (e₂ : List (Event A B)) : Replayed J s (.miss (e₁ ++ e₂) : Result K Empty _)
      ((replay J e₁ s).bind (replay J e₂)).missed := by
    rw [← replay_append]
    exact .miss _
  cases he : replay J e₁ s with
  | done t =>
    rw [he] at hhit hmiss
    have ht := h t
    dsimp only
    generalize x t = y at ht
    cases ht with
    | hit v r e₂ => exact hhit v r e₂
    | miss e₂ => exact hmiss e₂
    | endless => exact .endless
    | threw e => exact .threw e
  | threw e =>
    rw [he] at hhit hmiss
    cases X with
    | hit v r e₂ => exact hhit v r e₂
    | miss e₂ => exact hmiss e₂
    | threw e => exact e.elim
    | endless => exact .threw e
  | endless =>
    rw [he] at hhit hmiss
    cases X with
    | hit v r e₂ => exact hhit v r e₂
    | miss e₂ => exact hmiss e₂
    | threw e => exact e.elim
    | endless => exact .endless

lemma Replayed.follow {s : σ} {X : Result K Empty (List (Event A B))} {x : Result K ε σ}
    {F : Value K → List Char → List (Event A B) → Result K Empty (List (Event A B))}
    {G : List (Event A B) → Result K Empty (List (Event A B))}
    {f : Value K → List Char → σ → Result K ε σ} {g : σ → Result K ε σ} (h : Replayed J s X x)
    (hF : ∀ v r e, F v r e = (F v r []).map (e ++ ·)) (hG : ∀ e, G e = (G []).map (e ++ ·))
    (hf : ∀ v r t, Replayed J t (F v r []) (f v r t)) (hg : ∀ t, Replayed J t (G []) (g t)) :
    Replayed J s (X.follow F G) (x.follow f g) := by
  cases h with
  | hit v r es =>
    have ha := Replayed.append (s := s) es (hf v r)
    change Replayed J s (F v r es) _
    rw [hF]
    convert ha using 1
    cases replay J es s <;> rfl
  | miss es =>
    have ha := Replayed.append (s := s) es hg
    change Replayed J s (G es) _
    rw [hG]
    convert ha using 1
    cases replay J es s <;> rfl
  | endless => exact .endless
  | threw e => exact .threw e

lemma replayed_matched {α : Type} {value : α → Value K} (x : Option (α × List Char)) (s : σ) :
    Replayed J s (matched value x ([] : List (Event A B))) (matched value x s) := by
  cases x
  · exact .miss []
  · exact .hit _ _ []

variable [Field K] {I : Actor K A ε σ} {view : A → Value K → List Char → B}

/-- **An actor** does to a state what it does along the trace of the text. -/
theorem parse_replayed {p : Grammar A}
    (hI : ∀ a ∈ p.acts, ∀ v f l s, I a v f l s = J a (view a v (consumed f l)) s)
    (skip : List Char → List Char) (xs : List Char) (s : σ) :
    Replayed J s (parse (log view) p skip xs []) (parse I p skip xs s) := by
  have hmiss (e : List (Event A B)) :
      (.miss e : Result K Empty (List (Event A B))) = (Result.miss []).map (e ++ ·) := by
    simp [Result.map]
  have hhit (v : Value K) (r : List Char) (e : List (Event A B)) :
      (.hit v r e : Result K Empty (List (Event A B))) = (Result.hit v r []).map (e ++ ·) := by
    simp [Result.map]
  induction p generalizing skip xs s with
  | charP test => exact replayed_matched _ s
  | uintP a b low high => exact replayed_matched _ s
  | urealP => exact replayed_matched _ s
  | eolP => exact replayed_matched _ s
  | endP => exact replayed_matched _ s
  | seq p q ihp ihq =>
    exact (ihp (fun a ha => hI a (List.mem_append_left _ ha)) skip xs s).follow
      (fun _ r e => parse_log view q skip r e) hmiss
      (fun _ r t => ihq (fun a ha => hI a (List.mem_append_right _ ha)) skip r t) fun _ => .miss []
  | alt p q ihp ihq =>
    exact (ihp (fun a ha => hI a (List.mem_append_left _ ha)) skip xs s).follow hhit
      (fun e => parse_log view q skip xs e) (fun v r _ => .hit v r [])
      fun t => ihq (fun a ha => hI a (List.mem_append_right _ ha)) skip xs t
  | star p ih =>
    have hlog (n : ℕ) (xs : List Char) (e : List (Event A B)) :
        starLoop (parse (log view) p skip) n xs e
          = (starLoop (parse (log view) p skip) n xs []).map (e ++ ·) := by
      induction n generalizing xs e with
      | zero => rfl
      | succ n ihn =>
        simp only [starLoop]
        rw [parse_log view p skip xs e]
        refine Result.map_follow (fun _ r e' => ?_) fun e' => rfl
        rw [ihn r (e ++ e'), ihn r e']
        cases starLoop (parse (log view) p skip) n r ([] : List (Event A B)) <;>
          simp [Result.map, List.append_assoc]
    change Replayed J s (starLoop (parse (log view) p skip) (xs.length + 1) xs [])
      (starLoop (parse I p skip) (xs.length + 1) xs s)
    induction xs.length + 1 generalizing xs s with
    | zero => exact .endless
    | succ n ihn =>
      exact (ih hI skip xs s).follow (fun _ r e => hlog n r e) (hhit _ _)
        (fun _ r t => ihn r t) fun _ => .hit _ _ []
  | opt p ih =>
    exact (ih hI skip xs s).follow hhit (hhit _ _) (fun v r _ => .hit v r []) fun _ => .hit _ _ []
  | diff p q ihp ihq =>
    refine (ihp (fun a ha => hI a (List.mem_append_left _ ha)) skip xs s).follow (fun v r e => ?_)
      hmiss (fun v r t => ?_) fun _ => .miss []
    · rw [parse_log view q skip xs e]
      refine Result.map_follow (fun _ r' e' => ?_) fun _ => rfl
      split_ifs <;> rfl
    · refine (ihq (fun a ha => hI a (List.mem_append_right _ ha)) skip xs t).follow
        (fun _ r' e => ?_) (hhit _ _) (fun _ r' t => ?_) fun _ => .hit _ _ []
      · split_ifs
        · exact hhit _ _ e
        · exact hmiss e
      · split_ifs
        · exact .hit _ _ []
        · exact .miss []
  | lexeme p ih => exact ih hI id (skip xs) s
  | act p a ih =>
    refine (ih (fun b hb => hI b (List.mem_append_left _ hb)) skip (skip xs) s).follow
      (fun v r e => ?_) hmiss (fun v r t => ?_) fun _ => .miss []
    · simp [log, Effect.result, Result.map]
    · rw [hI a (List.mem_append_right _ (List.mem_singleton_self a))]
      have hone : replay J [⟨a, view a v (consumed (skip xs) r)⟩] t
          = J a (view a v (consumed (skip xs) r)) t := by
        simp only [replay]
        cases J a (view a v (consumed (skip xs) r)) t <;> rfl
      rw [← hone]
      exact .hit v r [⟨a, view a v (consumed (skip xs) r)⟩]

/-- A parse by an actor, from the trace of the text. -/
lemma Reads.parse {p : Grammar A} {skip : List Char → List Char} {xs r : List Char} {v : Value K}
    {es : List (Event A B)} (h : Reads view p skip xs v r es)
    (hI : ∀ a ∈ p.acts, ∀ v f l s, I a v f l s = J a (view a v (consumed f l)) s) (s : σ) :
    Spirit.parse I p skip xs s = (replay J es s).result v r := by
  have hr := parse_replayed hI skip xs s
  unfold Reads at h
  rw [h] at hr
  generalize Spirit.parse I p skip xs s = y at hr
  cases hr
  rfl

/-- An actor that matches left a trace. -/
lemma exists_reads {p : Grammar A} {skip : List Char → List Char} {xs r : List Char} {v : Value K}
    {s s' : σ} (hI : ∀ a ∈ p.acts, ∀ v f l s, I a v f l s = J a (view a v (consumed f l)) s)
    (h : Spirit.parse I p skip xs s = .hit v r s') :
    ∃ es, Reads view p skip xs v r es ∧ replay J es s = .done s' := by
  have hr := parse_replayed hI skip xs s
  rw [h] at hr
  unfold Reads
  generalize Spirit.parse (log view) p skip xs [] = x at hr
  generalize hy : Spirit.Result.hit v r s' = y at hr
  cases hr with
  | hit v₁ r₁ es =>
    obtain ⟨hdone, rfl, rfl⟩ := result_eq_hit.mp hy.symm
    exact ⟨es, rfl, hdone⟩
  | miss es => cases hes : replay J es s <;> rw [hes] at hy <;> cases hy
  | endless => cases hy
  | threw e => cases hy

end Replay

end Spirit
