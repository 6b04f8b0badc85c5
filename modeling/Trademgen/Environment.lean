import Mathlib

/-!
What the demand generator takes from outside: dates and times, the mathematical library, the
random generators, and the ways a call can fail.

Arithmetic is exact, over an ordered field `K`. A date is its Julian day number; a duration
and a date-time are counted in microseconds, from midnight of day zero for the latter.
-/

namespace Trademgen

/-! ### Literals -/

-- Named, so that a literal is one and the same term in every module.
scoped instance two_atLeastTwo : Nat.AtLeastTwo 2 := ⟨le_rfl⟩
scoped instance five_atLeastTwo : Nat.AtLeastTwo 5 := ⟨by norm_num⟩
scoped instance ten_atLeastTwo : Nat.AtLeastTwo 10 := ⟨by norm_num⟩
scoped instance thirty_atLeastTwo : Nat.AtLeastTwo 30 := ⟨by norm_num⟩
scoped instance thousand_atLeastTwo : Nat.AtLeastTwo 1000 := ⟨by norm_num⟩

/-! ### Failures -/

/-- How a call ends when it does not return. -/
inductive Fault
  /-- `std::out_of_range`, from `std::vector::at`. -/
  | outOfRange
  /-- `TRADEMGEN::IndexOutOfRangeException`. -/
  | indexOutOfRange
  /-- A failed `assert`. -/
  | assertion
  /-- An exponential variate asked for with a rate that is not positive. -/
  | nonPositiveRate
  /-- Not a failure of the code: the recursion was not followed to its end. -/
  | cut
  deriving DecidableEq

/-! ### Dates and times -/

abbrev Date := ℤ
abbrev Duration := ℤ
abbrev DateTime := ℤ

namespace DateTime

def millisec (n : ℤ) : Duration := n * 1000
def seconds (n : ℤ) : Duration := n * 1000000
def hours (n : ℤ) : Duration := n * 3600000000

/-- The whole seconds of a duration, truncated toward zero. -/
def total_seconds (t : Duration) : ℤ := Int.tdiv t 1000000

/-- One day, as a duration. -/
def oneDay : Duration := 86400000000

/-- The date-time of a time of day on a date. -/
def ptime (d : Date) (t : Duration) : DateTime := d * oneDay + t

def date (t : DateTime) : Date := t / oneDay
def timeOfDay (t : DateTime) : Duration := t % oneDay

end DateTime

/-! ### The mathematical library -/

/-- `std::pow` and `log`. -/
class Libm (K : Type) where
  pow : K → K → K
  log : K → K

noncomputable instance : Libm ℝ where
  pow x y := x ^ y
  log := Real.log

/-! ### Random generators -/

/-- The random generators, as state transformers on the states `G`. -/
class RandomGeneration (K : outParam Type) (G : Type) where
  /-- The state for a seed. -/
  init : ℕ → G
  /-- The next uniform variate. -/
  uniform : G → K × G
  /-- The next exponential variate of a given rate. -/
  exponential : K → G → K × G
  /-- The next normal variate of a given mean and standard deviation. -/
  normal : K → K → G → K × G

section Laws

variable (K G : Type) [Field K] [LinearOrder K] [RandomGeneration K G]

/-- Uniform variates lie in `[0, 1)`. -/
def UniformLaw : Prop :=
  ∀ g : G, 0 ≤ (RandomGeneration.uniform g).1 ∧ (RandomGeneration.uniform g).1 < 1

/-- Exponential variates of a positive rate are not negative. -/
def ExponentialLaw : Prop :=
  ∀ (r : K) (g : G), 0 < r → 0 ≤ (RandomGeneration.exponential r g).1

/-- Exponential variates of a positive rate are positive. -/
def PositiveExponentialLaw : Prop :=
  ∀ (r : K) (g : G), 0 < r → 0 < (RandomGeneration.exponential r g).1

variable {K G} in
lemma PositiveExponentialLaw.nonneg (h : PositiveExponentialLaw K G) : ExponentialLaw K G :=
  fun r g hr => (h r g hr).le

end Laws

section Variates

variable {K G : Type} [RandomGeneration K G]

/-- The state after `n` uniform variates. -/
def advance (g : G) : ℕ → G
  | 0 => g
  | n + 1 => (RandomGeneration.uniform (advance g n)).2

/-- The uniform variates of a generator, numbered from `0`. -/
def variate (g : G) (n : ℕ) : K := (RandomGeneration.uniform (advance g n)).1

@[simp] lemma advance_zero (g : G) : advance g 0 = g := rfl

lemma advance_succ (g : G) (n : ℕ) :
    advance g (n + 1) = (RandomGeneration.uniform (advance g n)).2 := rfl

lemma advance_add (g : G) (n m : ℕ) : advance g (n + m) = advance (advance g n) m := by
  induction m with
  | zero => rfl
  | succ m ih => rw [← Nat.add_assoc, advance_succ, ih, advance_succ]

end Variates

/-! ### Recorded variates -/

/-- A generator that plays back sequences of variates. -/
structure Tape (K : Type) [Field K] [LinearOrder K] where
  unif : ℕ → K
  expo : ℕ → K
  norm : ℕ → K
  unif_mem : ∀ n, 0 ≤ unif n ∧ unif n < 1
  expo_pos : ∀ n, 0 < expo n

namespace Tape

variable {K : Type} [Field K] [LinearOrder K] [IsStrictOrderedRing K]

instance : RandomGeneration K (Tape K) where
  init _ := ⟨fun _ => 0, fun _ => 1, fun _ => 0, by simp, by simp⟩
  uniform t := (t.unif 0, { t with
    unif := fun n => t.unif (n + 1), unif_mem := fun n => t.unif_mem (n + 1) })
  exponential _ t := (t.expo 0, { t with
    expo := fun n => t.expo (n + 1), expo_pos := fun n => t.expo_pos (n + 1) })
  normal _ _ t := (t.norm 0, { t with norm := fun n => t.norm (n + 1) })

lemma uniformLaw : UniformLaw K (Tape K) := fun t => t.unif_mem 0
lemma positiveExponentialLaw : PositiveExponentialLaw K (Tape K) := fun _ t _ => t.expo_pos 0

lemma zero_mem : 0 ≤ (0 : K) ∧ (0 : K) < 1 := ⟨le_rfl, zero_lt_one⟩
lemma one_pos : 0 < (1 : K) := zero_lt_one

/-- The tape of constant variates. -/
def const (u e m : K) (hu : 0 ≤ u ∧ u < 1) (he : 0 < e) : Tape K :=
  ⟨fun _ => u, fun _ => e, fun _ => m, fun _ => hu, fun _ => he⟩

end Tape

end Trademgen
