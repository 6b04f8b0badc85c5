import Mathlib

/-!
Ordered maps, kept as the strictly increasing list of their pairs.

Insertion keeps the value already stored under a key, and says whether it stored the new
one.
-/

namespace OrderedMap

/-- A map from keys to values, in increasing order of the keys. -/
structure OMap (α β : Type) [LinearOrder α] where
  pairs : List (α × β)
  sorted : (pairs.map Prod.fst).Pairwise (· < ·)

variable {α β : Type} [LinearOrder α]

def insertPair (a : α) (b : β) : List (α × β) → List (α × β)
  | [] => [(a, b)]
  | (x, y) :: r =>
    if a < x then (a, b) :: (x, y) :: r
    else if a = x then (x, y) :: r
    else (x, y) :: insertPair a b r

lemma mem_keys_insertPair (a : α) (b : β) (l : List (α × β)) (k : α) :
    k ∈ (insertPair a b l).map Prod.fst ↔ k = a ∨ k ∈ l.map Prod.fst := by
  induction l with
  | nil => simp [insertPair]
  | cons p r ih =>
    obtain ⟨x, y⟩ := p
    unfold insertPair
    split_ifs with h1 h2
    · simp
    · subst h2; simp
    · simp only [List.map_cons, List.mem_cons, ih]
      tauto

lemma sorted_insertPair (a : α) (b : β) {l : List (α × β)}
    (h : (l.map Prod.fst).Pairwise (· < ·)) :
    ((insertPair a b l).map Prod.fst).Pairwise (· < ·) := by
  induction l with
  | nil => simp [insertPair]
  | cons p r ih =>
    obtain ⟨x, y⟩ := p
    simp only [List.map_cons, List.pairwise_cons] at h
    unfold insertPair
    split_ifs with h1 h2
    · simp only [List.map_cons, List.pairwise_cons, List.mem_cons]
      refine ⟨?_, h⟩
      rintro k (rfl | hk)
      · exact h1
      · exact lt_trans h1 (h.1 k hk)
    · simpa using h
    · simp only [List.map_cons, List.pairwise_cons]
      refine ⟨fun k hk => ?_, ih h.2⟩
      rcases (mem_keys_insertPair a b r k).mp hk with rfl | hk
      · exact lt_of_le_of_ne (not_lt.mp h1) (Ne.symm h2)
      · exact h.1 k hk

namespace OMap

def empty : OMap α β := ⟨[], by simp⟩

/-- The keys, in increasing order. -/
def keys (m : OMap α β) : List α := m.pairs.map Prod.fst

/-- The values, in the order of their keys. -/
def values (m : OMap α β) : List β := m.pairs.map Prod.snd

/-- Insertion of a pair, with whether the key was new. -/
def insert (m : OMap α β) (a : α) (b : β) : OMap α β × Bool :=
  (⟨insertPair a b m.pairs, sorted_insertPair a b m.sorted⟩, decide (a ∉ m.keys))

/-- The value of a key. -/
def find (m : OMap α β) (a : α) : Option β :=
  (m.pairs.find? fun p => decide (p.1 = a)).map Prod.snd

@[simp] lemma length_keys (m : OMap α β) : m.keys.length = m.pairs.length := by simp [keys]
@[simp] lemma length_values (m : OMap α β) : m.values.length = m.pairs.length := by simp [values]

/-- A key has one value. -/
lemma eq_of_fst_eq (m : OMap α β) {p q : α × β} (hp : p ∈ m.pairs) (hq : q ∈ m.pairs)
    (h : p.1 = q.1) : p = q := by
  have hnd : (m.pairs.map Prod.fst).Nodup := m.sorted.imp fun h => h.ne
  exact List.inj_on_of_nodup_map hnd hp hq h

lemma mem_insert_keys (m : OMap α β) (a : α) (b : β) (k : α) :
    k ∈ (m.insert a b).1.keys ↔ k = a ∨ k ∈ m.keys :=
  mem_keys_insertPair a b m.pairs k

lemma mem_insertPair {a : α} {b : β} {l : List (α × β)} {q : α × β} (h : q ∈ insertPair a b l) :
    q = (a, b) ∨ q ∈ l := by
  induction l with
  | nil => simpa [insertPair] using h
  | cons p r ih =>
    obtain ⟨x, y⟩ := p
    unfold insertPair at h
    split_ifs at h with h1 h2
    · simpa using h
    · exact Or.inr h
    · rcases List.mem_cons.mp h with rfl | h
      · simp
      · rcases ih h with rfl | h
        · simp
        · simp [h]

/-- An insertion brings in no value but the one inserted. -/
lemma mem_insert_values {m : OMap α β} {a : α} {b y : β} (h : y ∈ (m.insert a b).1.values) :
    y = b ∨ y ∈ m.values := by
  obtain ⟨q, hq, rfl⟩ := List.mem_map.mp h
  rcases mem_insertPair hq with rfl | hq
  · exact Or.inl rfl
  · exact Or.inr (List.mem_map.mpr ⟨q, hq, rfl⟩)

lemma keys_nodup (m : OMap α β) : m.keys.Nodup := m.sorted.imp fun h => h.ne

lemma insertPair_perm {a : α} {b : β} {l : List (α × β)} (h : a ∉ l.map Prod.fst) :
    (insertPair a b l).Perm ((a, b) :: l) := by
  induction l with
  | nil => exact .refl _
  | cons p r ih =>
    obtain ⟨x, y⟩ := p
    obtain ⟨hne, hr⟩ := not_or.mp (mt List.mem_cons.mpr h)
    unfold insertPair
    rw [if_neg hne]
    split_ifs
    · exact .refl _
    · exact ((ih hr).cons _).trans (.swap _ _ _)

/-- A new key is one more pair. -/
lemma insert_pairs_perm {m : OMap α β} {a : α} (h : a ∉ m.keys) (b : β) :
    (m.insert a b).1.pairs.Perm ((a, b) :: m.pairs) :=
  insertPair_perm h

lemma insert_pairs_ne_nil (m : OMap α β) (a : α) (b : β) : (m.insert a b).1.pairs ≠ [] := by
  have h : a ∈ (m.insert a b).1.keys := (mem_insert_keys m a b a).mpr (Or.inl rfl)
  intro h0
  simp [keys, h0] at h

/-! ### Maps from lists -/

/-- The pairs of a list, inserted one after the other. -/
def ofPairs (l : List (α × β)) : OMap α β :=
  l.foldl (fun m p => (m.insert p.1 p.2).1) empty

lemma ofPairs_append (l : List (α × β)) (a : α) (b : β) :
    ofPairs (l ++ [(a, b)]) = ((ofPairs l).insert a b).1 := by
  simp [ofPairs]

lemma ofPairs_pairs_ne_nil {l : List (α × β)} (h : l ≠ []) : (ofPairs l).pairs ≠ [] := by
  induction l using List.reverseRecOn with
  | nil => exact absurd rfl h
  | append_singleton l p _ =>
    rw [ofPairs_append]
    exact insert_pairs_ne_nil _ _ _

lemma mem_ofPairs_values {l : List (α × β)} {y : β} (h : y ∈ (ofPairs l).values) :
    ∃ p ∈ l, p.2 = y := by
  induction l using List.reverseRecOn with
  | nil => simp [ofPairs, empty, values] at h
  | append_singleton l p ih =>
    rw [ofPairs_append] at h
    rcases mem_insert_values h with rfl | h
    · exact ⟨p, by simp, rfl⟩
    · obtain ⟨q, hq, rfl⟩ := ih h
      exact ⟨q, by simp [hq], rfl⟩

lemma mem_ofPairs_keys {l : List (α × β)} {a : α} (h : a ∈ (ofPairs l).keys) :
    ∃ p ∈ l, p.1 = a := by
  induction l using List.reverseRecOn with
  | nil => simp [ofPairs, empty, keys] at h
  | append_singleton l p ih =>
    rw [ofPairs_append, mem_insert_keys] at h
    rcases h with rfl | h
    · exact ⟨p, by simp, rfl⟩
    · obtain ⟨q, hq, rfl⟩ := ih h
      exact ⟨q, by simp [hq], rfl⟩

lemma insertPair_last {a : α} {b : β} {l : List (α × β)} (h : ∀ p ∈ l, p.1 < a) :
    insertPair a b l = l ++ [(a, b)] := by
  induction l with
  | nil => rfl
  | cons p r ih =>
    obtain ⟨x, y⟩ := p
    have hx : x < a := h (x, y) (by simp)
    unfold insertPair
    rw [if_neg hx.not_gt, if_neg hx.ne', ih fun q hq => h q (by simp [hq])]
    rfl

/-- A list in increasing order is its own map. -/
lemma ofPairs_pairs {l : List (α × β)} (h : (l.map Prod.fst).Pairwise (· < ·)) :
    (ofPairs l).pairs = l := by
  induction l using List.reverseRecOn with
  | nil => rfl
  | append_singleton l p ih =>
    rw [List.map_append, List.pairwise_append] at h
    obtain ⟨hl, -, hp⟩ := h
    rw [ofPairs_append]
    simp only [insert, ih hl]
    refine insertPair_last fun q hq => hp q.1 (List.mem_map_of_mem hq) p.1 (by simp)

/-- **A list** is the pairs of its map when, and only when, it gives no key twice. -/
theorem ofPairs_perm_iff {l : List (α × β)} :
    (ofPairs l).pairs.Perm l ↔ (l.map Prod.fst).Nodup := by
  refine ⟨fun h => (h.map Prod.fst).nodup (keys_nodup _), fun h => ?_⟩
  induction l using List.reverseRecOn with
  | nil => exact .refl _
  | append_singleton l p ih =>
    obtain ⟨hl, -, hp⟩ := List.nodup_append.mp (List.map_append ▸ h)
    have hperm := ih hl
    have hnew : p.1 ∉ (ofPairs l).keys := by
      intro hmem
      exact hp p.1 ((hperm.map Prod.fst).mem_iff.mp hmem) p.1 (by simp) rfl
    rw [ofPairs_append]
    exact (insert_pairs_perm hnew p.2).trans
      ((hperm.cons p).trans (List.perm_append_singleton p l).symm)

end OMap

end OrderedMap
