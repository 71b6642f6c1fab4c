import SparkTrail.Decimal.Literal
import SparkTrail.Proofs.Scalar.Number
import SparkTrail.Proofs.Scalar.Sign

/-!
# Numerals are not below zero

A numeral has no sign, and neither rounding nor a magnitude beyond all doubles gives it one: the
double nearest to it is a number and not below zero, infinity included. A short numeral is read as a
product or a quotient of two doubles and every other one is rounded once, so both ways are followed
here.
-/
namespace SparkTrail.Decimal

open Float.Model Float.Model.UnpackedFloat Single

/-- A decoded float that is a number and not below zero. -/
structure IsNonneg (u : UnpackedFloat) : Prop where
  isNaN : u.isNaN = false
  isBelowZero : isBelowZero u = false

variable {F : Format} {u p : UnpackedFloat} {m n : ℕ} {e : ℤ} {acc : Accuracy} {v : Float}
  {numeral : List Char}

theorem IsNonneg.shape (h : IsNonneg u) : u = .infinity .positive ∨ (∃ s, u = .zero s) ∨
    ∃ m e hm, u = .finite .positive m e hm := by
  obtain ⟨hnumber, hbelow⟩ := h
  cases u with
  | notANumber => cases hnumber
  | infinity s => cases s with
    | negative => cases hbelow
    | positive => exact Or.inl rfl
  | zero s => exact Or.inr (Or.inl ⟨s, rfl⟩)
  | finite s m e hm => cases s with
    | negative => cases hbelow
    | positive => exact Or.inr (Or.inr ⟨m, e, hm, rfl⟩)

/-- To be at least zero is to be a number that is not below zero; both zeros are. -/
theorem le_iff_isNonneg : UnpackedFloat.le (.zero .positive) u = true ↔ IsNonneg u := by
  constructor
  · intro h
    cases u with
    | notANumber => cases h
    | infinity s => cases s with
      | negative => cases h
      | positive => exact ⟨rfl, rfl⟩
    | zero s => exact ⟨rfl, rfl⟩
    | finite s m e hm => cases s with
      | negative => cases h
      | positive => exact ⟨rfl, rfl⟩
  · intro h
    obtain rfl | ⟨s, rfl⟩ | ⟨m, e, hm, rfl⟩ := h.shape
    · rfl
    · rfl
    · rfl

theorem nonneg_iff : 0 ≤ v ↔ IsNonneg v.toModel.unpack := by
  rw [← le_iff_isNonneg]
  show decide (UnpackedFloat.le (0 : Float).toModel.unpack v.toModel.unpack = true) = true ↔ _
  rw [decide_eq_true_iff]
  rfl

theorem not_isNaN_of_nonneg (h : 0 ≤ v) : v.isNaN = false :=
  (nonneg_iff.mp h).isNaN

theorem isNonneg_round : IsNonneg (roundWithAccuracy F .positive m e acc) := by
  refine ⟨isNaN_roundWithAccuracy, Bool.eq_false_of_not_eq_true ?_⟩
  intro hbelow
  cases isBelowZero_round hbelow

theorem isNonneg_ofNat : IsNonneg (UnpackedFloat.ofNat F n) := by
  rw [UnpackedFloat.ofNat, UnpackedFloat.ofInt, UnpackedFloat.normalize]
  split
  case h_1 hlt => exact absurd (compare_lt_iff_lt.mp hlt) (by omega)
  case h_2 => exact ⟨rfl, rfl⟩
  case h_3 => exact isNonneg_round

theorem IsNonneg.pack (h : IsNonneg u) :
    IsNonneg (UnpackedFloat.unpack F (UnpackedFloat.pack F u)) := by
  refine ⟨isNaN_pack h.isNaN, Bool.eq_false_of_not_eq_true ?_⟩
  intro hbelow
  exact Bool.eq_false_iff.mp h.isBelowZero (isBelowZero_of_pack hbelow)

/-- A finite factor above zero leaves a number on its side of zero. -/
theorem IsNonneg.mul (hu : IsNonneg u) (hp : ∃ n d hn, p = .finite .positive n d hn) :
    IsNonneg (UnpackedFloat.mul F u p) := by
  obtain ⟨n, d, hn, rfl⟩ := hp
  obtain rfl | ⟨s, rfl⟩ | ⟨m, e, hm, rfl⟩ := hu.shape
  · exact ⟨rfl, rfl⟩
  · exact ⟨rfl, rfl⟩
  · exact isNonneg_round

theorem IsNonneg.div (hu : IsNonneg u) (hp : ∃ n d hn, p = .finite .positive n d hn) :
    IsNonneg (UnpackedFloat.div F u p) := by
  obtain ⟨n, d, hn, rfl⟩ := hp
  obtain rfl | ⟨s, rfl⟩ | ⟨m, e, hm, rfl⟩ := hu.shape
  · exact ⟨rfl, rfl⟩
  · exact ⟨rfl, rfl⟩
  · exact isNonneg_round

/-- Digits with a power of ten so large or so small that nothing is left to round are infinite or
zero; all others are rounded to a product or a quotient of two numbers above zero. -/
theorem isNonneg_ofScientific : IsNonneg (UnpackedFloat.ofScientific F n e) := by
  rw [UnpackedFloat.ofScientific]
  split
  · exact ⟨rfl, rfl⟩
  split
  · exact ⟨rfl, rfl⟩
  split
  · exact ⟨rfl, rfl⟩
  split
  · exact isNonneg_round
  · exact isNonneg_round

theorem exists_finite (hfinite : u.isFinite = true) (habove : isAboveZero u = true) :
    ∃ m e hm, u = .finite .positive m e hm := by
  cases u with
  | notANumber => cases hfinite
  | infinity s => cases hfinite
  | zero s => cases habove
  | finite s m e hm => cases s with
    | negative => cases habove
    | positive => exact ⟨m, e, hm, rfl⟩

/-- The powers of ten that a double is equal to. -/
theorem exists_powerOfTen (i : Fin Float.exactlyRepresentablePowersOfTen.size) :
    ∃ m e hm, Float.exactlyRepresentablePowersOfTen[i].toModel.unpack =
      .finite .positive m e hm := by
  have hall : ∀ i : Fin Float.exactlyRepresentablePowersOfTen.size,
      Float.exactlyRepresentablePowersOfTen[i].toModel.unpack.isFinite = true ∧
        isAboveZero Float.exactlyRepresentablePowersOfTen[i].toModel.unpack = true := by decide
  exact exists_finite (hall i).1 (hall i).2

/-- Digits scaled by a power of ten, up or down, do not come out below zero, however they are
rounded. -/
theorem nonneg_ofScientific (m : ℕ) (s : Bool) (e : ℕ) : 0 ≤ Float.ofScientific m s e := by
  rw [nonneg_iff, Float.ofScientific]
  split
  case isTrue h =>
    have he : e < Float.exactlyRepresentablePowersOfTen.size := Nat.lt_succ_of_le h.2
    have hpower := exists_powerOfTen ⟨e, he⟩
    have hm : IsNonneg m.toUInt64.toFloat.toModel.unpack := isNonneg_ofNat.pack
    split
    · exact (hm.div hpower).pack
    · exact (hm.mul hpower).pack
  case isFalse => exact isNonneg_ofScientific.pack

/-- Digits and dots stand for no number below zero, and for nothing that is not a number. -/
theorem nonneg_of_read? (h : read? numeral = some v) : 0 ≤ v := by
  rw [read?] at h
  split at h
  · split at h
    · cases h
    · cases h
      exact nonneg_ofScientific _ _ _
  · split at h
    · cases h
      exact nonneg_ofScientific _ _ _
    · cases h
  · cases h

end SparkTrail.Decimal
