import Mathlib
import SparkTrail.Scalar.Basic

/-!
# The real numbers as scalars

Over the real numbers the simulation is what it is before rounding: every operation is the exact
one, nothing is infinite, and a whole part has no largest value. What is shown about these scalars
is what the float program computes up to its rounding errors.
-/
namespace SparkTrail.Exact

/-- A double nearest to a real number. -/
noncomputable def nearestDouble (r : ℝ) : Float :=
  Classical.epsilon fun v => v.isFinite ∧
    ∀ w : Float, w.isFinite → |(v.toRat0 : ℝ) - r| ≤ |(w.toRat0 : ℝ) - r|

noncomputable def truncate (r : ℝ) : ℤ :=
  if 0 ≤ r then ⌊r⌋ else ⌈r⌉

/-- Real numbers as scalars. -/
noncomputable instance : Scalar ℝ where
  zero := 0
  one := 1
  decideLT := inferInstance
  decideLE := inferInstance
  decimal m n := m / 10 ^ n
  rem a b := a - b * truncate (a / b)
  sqrt := Real.sqrt
  sin := Real.sin
  cos := Real.cos
  degree := Real.pi / 180
  isFinite _ := true
  whole v := ⌊v⌋₊
  toDouble := nearestDouble
  ofDouble v := v.toRat0

variable {a b : ℝ}

@[simp] theorem decimal_eq (m n : ℕ) : (Scalar.decimal m n : ℝ) = m / 10 ^ n := rfl

@[simp] theorem isFinite_eq (a : ℝ) : Scalar.isFinite a = true := rfl

@[simp] theorem whole_eq (a : ℝ) : Scalar.whole a = ⌊a⌋₊ := rfl

theorem ofNat_eq (n : ℕ) : (Scalar.ofNat n : ℝ) = n := by
  rw [Scalar.ofNat, decimal_eq, pow_zero, div_one]

theorem atLeastZero_eq (a : ℝ) : Scalar.atLeastZero a = max a 0 := by
  rw [Scalar.atLeastZero]
  split
  case isTrue h => exact (max_eq_left h.le).symm
  case isFalse h => exact (max_eq_right (not_lt.mp h)).symm

theorem rem_eq (ha : 0 ≤ a) (hb : 0 < b) : Scalar.rem a b = a - b * ⌊a / b⌋ := by
  have hq : 0 ≤ a / b := by positivity
  show a - b * truncate (a / b) = a - b * ⌊a / b⌋
  rw [truncate, if_pos hq]

theorem rem_nonneg (ha : 0 ≤ a) (hb : 0 < b) : 0 ≤ Scalar.rem a b := by
  have hfloor : ⌊a / b⌋ * b ≤ a := (le_div_iff₀ hb).mp (Int.floor_le (a / b))
  rw [rem_eq ha hb]
  linarith

theorem rem_lt (ha : 0 ≤ a) (hb : 0 < b) : Scalar.rem a b < b := by
  have hfloor : a < (⌊a / b⌋ + 1) * b := (div_lt_iff₀ hb).mp (Int.lt_floor_add_one (a / b))
  rw [rem_eq ha hb]
  linarith

end SparkTrail.Exact
