import Mathlib
import SparkTrail.Scalar.Single

/-!
# Signs of single-precision quotients

The sign of a float is packed as a bit of its own, so rounding keeps the sign that the exact result
has, whatever becomes of its magnitude. A dividend that is not below zero therefore has a quotient
below zero only by a divisor that is not above it.
-/
namespace SparkTrail.Single

open Float.Model Float.Model.UnpackedFloat

/-- Whether a decoded float is less than zero. Neither of the zeros is. -/
def isBelowZero : UnpackedFloat → Bool
  | .infinity .negative => true
  | .finite .negative _ _ _ => true
  | _ => false

theorem lt_zero_iff (v : Float32) : v < 0 ↔ isBelowZero v.toModel.unpack = true := by
  have hlt : v < 0 ↔ UnpackedFloat.lt v.toModel.unpack (.zero .positive) = true := by
    show decide (UnpackedFloat.lt v.toModel.unpack (0 : Float32).toModel.unpack = true) = true ↔ _
    rw [decide_eq_true_iff]
    rfl
  rw [hlt, UnpackedFloat.lt]
  cases v.toModel.unpack with
  | notANumber => simp [UnpackedFloat.compare, isBelowZero]
  | infinity s => cases s <;> simp [UnpackedFloat.compare, isBelowZero]
  | zero s => simp [UnpackedFloat.compare, isBelowZero]
  | finite s m e h => cases s <;> simp [UnpackedFloat.compare, isBelowZero]

variable {F : Format}

theorem unpackSign_of_isBelowZero {b : BitVec F.numBits}
    (h : isBelowZero (UnpackedFloat.unpack F b) = true) :
    Sign.ofBitVec (unpackSign b) = .negative := by
  cases hs : Sign.ofBitVec (unpackSign b) with
  | negative => rfl
  | positive =>
    simp only [UnpackedFloat.unpack, hs] at h
    split at h
    · split at h <;> cases h
    · split at h
      · split at h <;> cases h
      · cases h

theorem isBelowZero_components {s : Sign} {e : BitVec F.exponentBits}
    {m : BitVec F.mantissaBitsWithoutImplicit}
    (h : isBelowZero (UnpackedFloat.unpack F (packComponents F s e m)) = true) :
    s = .negative := by
  have hs := unpackSign_of_isBelowZero h
  rwa [unpackSign_packComponents, Sign.ofBitVec_toBitVec] at hs

/-- Packing rounds nothing that is not below zero to something that is. -/
theorem isBelowZero_of_pack {u : UnpackedFloat}
    (h : isBelowZero (UnpackedFloat.unpack F (UnpackedFloat.pack F u)) = true) :
    isBelowZero u = true := by
  cases u with
  | notANumber =>
    rw [UnpackedFloat.pack, unpack_packedNaN] at h
    exact h
  | zero s =>
    rw [UnpackedFloat.pack, unpack_packedZero] at h
    exact h
  | infinity s =>
    rw [isBelowZero_components h]
    rfl
  | finite s m e hm =>
    have hs : s = .negative := by
      simp only [UnpackedFloat.pack] at h
      split at h
      · exact isBelowZero_components h
      · split at h <;> exact isBelowZero_components h
    rw [hs]
    rfl

/-- Rounding changes no sign. -/
theorem isBelowZero_round {s : Sign} {m : Nat} {e : Int} {acc : Accuracy}
    (h : isBelowZero (roundWithAccuracy F s m e acc) = true) : s = .negative := by
  cases s with
  | negative => rfl
  | positive =>
    simp only [roundWithAccuracy] at h
    split at h <;> cases h

theorem eq_negative_of_div {s : Sign} (h : Sign.positive / s = .negative) : s = .negative := by
  cases s with
  | negative => rfl
  | positive => cases h

/-- A dividend that is not below zero has a quotient below zero only by a divisor that is not above
it: one below zero, or the negative zero. -/
theorem le_of_isBelowZero_div {u v : UnpackedFloat} (hu : isBelowZero u = false)
    (h : isBelowZero (UnpackedFloat.div Format.binary32 u v) = true) :
    UnpackedFloat.le v u = true := by
  cases u with
  | notANumber => cases v <;> cases h
  | zero s => cases v <;> cases h
  | infinity s =>
    cases s with
    | negative => cases hu
    | positive =>
      cases v with
      | notANumber => cases h
      | infinity t => cases h
      | zero t => rfl
      | finite t m e hm =>
        -- the quotient is infinite, with the sign of the divisor
        cases t with
        | negative => rfl
        | positive => cases h
  | finite s m e hm =>
    cases s with
    | negative => cases hu
    | positive =>
      cases v with
      | notANumber => cases h
      | infinity t => cases h
      | zero t => rfl
      | finite t m' e' hm' =>
        rw [eq_negative_of_div (isBelowZero_round h)]
        rfl

theorem le_of_div_lt_zero {a b : Float32} (ha : ¬ a < 0) (h : a / b < 0) : b ≤ a := by
  rw [lt_zero_iff] at ha h
  have hdiv := isBelowZero_of_pack (u := UnpackedFloat.div _ a.toModel.unpack b.toModel.unpack) h
  have hle := le_of_isBelowZero_div (Bool.eq_false_iff.mpr ha) hdiv
  show decide (UnpackedFloat.le b.toModel.unpack a.toModel.unpack = true) = true
  rw [hle]
  rfl

end SparkTrail.Single
