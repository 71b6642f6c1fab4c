import SparkTrail.Proofs.Scalar.Exact
import SparkTrail.Scalar.Single

/-!
# The order of scalars

A scalar that is not a number compares with nothing, not even with itself. All others stand in one
order, in which some of them are not told apart, such as the two zeros. That is all that is needed
of comparisons, and single-precision floats give it as the real numbers do.
-/
namespace SparkTrail

namespace Scalar

/-- Whether a scalar is a number: nothing else is at most itself. -/
def IsNumber {α : Type} [Scalar α] (a : α) : Prop :=
  a ≤ a

instance {α : Type} [Scalar α] (a : α) : Decidable (IsNumber a) :=
  inferInstanceAs (Decidable (a ≤ a))

/-- Scalars whose numbers stand in one order. -/
class Ordered (α : Type) [Scalar α] : Prop where
  isNumber_of_le {a b : α} : a ≤ b → IsNumber a ∧ IsNumber b
  le_total {a b : α} : IsNumber a → IsNumber b → a ≤ b ∨ b ≤ a
  le_trans {a b c : α} : a ≤ b → b ≤ c → a ≤ c
  lt_iff {a b : α} : a < b ↔ a ≤ b ∧ ¬ b ≤ a

namespace Ordered

variable {α : Type} [Scalar α] [Ordered α] {a b c : α}

theorem le_of_lt (h : a < b) : a ≤ b :=
  (lt_iff.mp h).1

theorem not_le_of_lt (h : a < b) : ¬ b ≤ a :=
  (lt_iff.mp h).2

theorem lt_of_not_le (ha : IsNumber a) (hb : IsNumber b) (h : ¬ a ≤ b) : b < a :=
  lt_iff.mpr ⟨(le_total ha hb).resolve_left h, h⟩

theorem lt_of_lt_of_le (h : a < b) (h' : b ≤ c) : a < c :=
  lt_iff.mpr ⟨le_trans (le_of_lt h) h', fun hca => not_le_of_lt h (le_trans h' hca)⟩

theorem lt_of_le_of_lt (h : a ≤ b) (h' : b < c) : a < c :=
  lt_iff.mpr ⟨le_trans h (le_of_lt h'), fun hca => not_le_of_lt h' (le_trans hca h)⟩

end Ordered

end Scalar

namespace Exact

instance : Scalar.Ordered ℝ where
  isNumber_of_le {a b} _ := ⟨le_refl a, le_refl b⟩
  le_total {a b} _ _ := le_total a b
  le_trans h h' := h.trans h'
  lt_iff := lt_iff_le_not_ge

end Exact

namespace Single

open Float.Model Float.Model.UnpackedFloat

/-- Where a decoded number stands in the order: the sign first, beyond all finite numbers for the
infinite ones, then the exponent, then the mantissa. A decoded number with a larger exponent is
larger whatever the mantissas are. -/
def rank : UnpackedFloat → ℤ ×ₗ ℤ ×ₗ ℤ
  | .infinity .negative => toLex (-2, toLex (0, 0))
  | .finite .negative m e _ => toLex (-1, toLex (-e, -m))
  | .zero _ | .notANumber => toLex (0, toLex (0, 0))
  | .finite .positive m e _ => toLex (1, toLex (e, m))
  | .infinity .positive => toLex (2, toLex (0, 0))

theorem compare_cast (m n : ℕ) : compare (m : ℤ) n = compare m n := by
  rw [← cmp_eq_compare, ← cmp_eq_compare]
  exact Nat.strictMono_cast.cmp_map_eq m n

theorem compare_neg (m n : ℤ) : compare (-m) (-n) = (compare m n).swap := by
  have hneg : StrictAnti fun k : ℤ => -k := fun a b h => neg_lt_neg h
  rw [← cmp_eq_compare, ← cmp_eq_compare, cmp_swap]
  exact hneg.cmp_map_eq m n

theorem compare_toLex {α β : Type} [Ord α] [Ord β] (a a' : α) (b b' : β) :
    compare (toLex (a, b)) (toLex (a', b')) = (compare a a').then (compare b b') := by
  rw [Prod.Lex.compare_def]
  rfl

/-- Numbers compare as their places in the order do. -/
theorem compare_eq_rank {u v : UnpackedFloat} (hu : u.isNaN = false) (hv : v.isNaN = false) :
    UnpackedFloat.compare u v = some (compare (rank u) (rank v)) := by
  cases u with
  | notANumber => cases hu
  | infinity s =>
    cases v with
    | notANumber => cases hv
    | infinity t => cases s <;> cases t <;> rfl
    | zero t => cases s <;> rfl
    | finite t m e h => cases s <;> cases t <;> rfl
  | zero s =>
    cases v with
    | notANumber => cases hv
    | infinity t => cases t <;> rfl
    | zero t => rfl
    | finite t m e h => cases t <;> rfl
  | finite s m e h =>
    cases v with
    | notANumber => cases hv
    | infinity t => cases s <;> cases t <;> rfl
    | zero t => cases s <;> rfl
    | finite t m' e' h' =>
      -- only among finite numbers of one sign do exponent and mantissa decide
      cases s with
      | positive =>
        cases t with
        | negative => rfl
        | positive =>
          rw [rank, rank, compare_toLex, compare_toLex, compare_cast]
          rfl
      | negative =>
        cases t with
        | positive => rfl
        | negative =>
          rw [rank, rank, compare_toLex, compare_toLex, compare_neg e e', compare_neg m m',
            compare_cast, ← Ordering.swap_then]
          rfl

theorem compare_eq_none {u v : UnpackedFloat} (h : u.isNaN = true ∨ v.isNaN = true) :
    UnpackedFloat.compare u v = none := by
  cases u <;> cases v <;> simp_all [UnpackedFloat.isNaN, UnpackedFloat.compare]

def place (v : Float32) : ℤ ×ₗ ℤ ×ₗ ℤ :=
  rank v.toModel.unpack

variable {a b : Float32}

theorem le_iff_compare : a ≤ b ↔
    (UnpackedFloat.compare a.toModel.unpack b.toModel.unpack).any (·.isLE) = true := by
  show decide (UnpackedFloat.le _ _ = true) = true ↔ _
  rw [decide_eq_true_iff]
  rfl

theorem lt_iff_compare : a < b ↔
    UnpackedFloat.compare a.toModel.unpack b.toModel.unpack = some .lt := by
  show decide (UnpackedFloat.lt _ _ = true) = true ↔ _
  rw [decide_eq_true_iff, UnpackedFloat.lt, beq_iff_eq]

theorem compare_eq_none_of_not (h : ¬ (a.isNaN = false ∧ b.isNaN = false)) :
    UnpackedFloat.compare a.toModel.unpack b.toModel.unpack = none := by
  rw [not_and_or, Bool.not_eq_false, Bool.not_eq_false] at h
  exact compare_eq_none h

theorem le_iff : a ≤ b ↔ (a.isNaN = false ∧ b.isNaN = false) ∧ place a ≤ place b := by
  rw [le_iff_compare]
  by_cases h : a.isNaN = false ∧ b.isNaN = false
  · rw [compare_eq_rank h.1 h.2, Option.any_some, Ordering.isLE_iff_ne_gt, and_iff_right h]
    exact compare_le_iff_le
  · rw [compare_eq_none_of_not h]
    exact iff_of_false Bool.false_ne_true fun h' => h h'.1

theorem lt_iff : a < b ↔ (a.isNaN = false ∧ b.isNaN = false) ∧ place a < place b := by
  rw [lt_iff_compare]
  by_cases h : a.isNaN = false ∧ b.isNaN = false
  · rw [compare_eq_rank h.1 h.2, Option.some_inj, compare_lt_iff_lt, and_iff_right h]
    rfl
  · rw [compare_eq_none_of_not h]
    exact iff_of_false nofun fun h' => h h'.1

theorem isNumber_iff : Scalar.IsNumber a ↔ a.isNaN = false := by
  rw [Scalar.IsNumber, le_iff, and_self, and_iff_left (le_refl (place a))]

instance : Scalar.Ordered Float32 where
  isNumber_of_le h := by
    rw [isNumber_iff, isNumber_iff]
    exact (le_iff.mp h).1
  le_total {a b} ha hb := by
    rw [isNumber_iff] at ha hb
    rw [le_iff, le_iff]
    exact (le_total (place a) (place b)).imp (.intro ⟨ha, hb⟩) (.intro ⟨hb, ha⟩)
  le_trans h h' := by
    rw [le_iff] at h h' ⊢
    exact ⟨⟨h.1.1, h'.1.2⟩, h.2.trans h'.2⟩
  lt_iff {a b} := by
    rw [le_iff, le_iff, lt_iff, lt_iff_le_not_ge]
    tauto

end Single

end SparkTrail
