import SparkTrail.Proofs.Scalar.Difference

/-!
# Sums and quotients that are numbers

Rounding and packing make no number into something else. So a finite float plus a number is a
number, and so is a finite float divided by a number above zero: what could go wrong needs two
infinities or two zeros.
-/
namespace SparkTrail.Single

open Float.Model Float.Model.UnpackedFloat Scalar

variable {F : Format} {a b : Float32} {u v : UnpackedFloat} {s : Sign} {m : ℕ} {e d : ℤ}
  {acc : Accuracy}

theorem isNaN_roundWithAccuracy : (roundWithAccuracy F s m e acc).isNaN = false := by
  simp only [roundWithAccuracy]
  split <;> rfl

theorem isNaN_normalize : (UnpackedFloat.normalize F d e s).isNaN = false := by
  rw [UnpackedFloat.normalize]
  split
  · exact isNaN_roundWithAccuracy
  · rfl
  · exact isNaN_roundWithAccuracy

theorem isNaN_components {b : BitVec F.exponentBits} {c : BitVec F.mantissaBitsWithoutImplicit}
    (h : b = -1#_ → c = 0#_) :
    (UnpackedFloat.unpack F (packComponents F s b c)).isNaN = false := by
  rw [UnpackedFloat.unpack]
  simp only [unpackExponent_packComponents, unpackMantissa_packComponents]
  split
  case isTrue hb =>
    rw [if_pos (h hb)]
    rfl
  case isFalse hb =>
    split
    · split <;> rfl
    · rfl

/-- What is packed is a number if it was one before. -/
theorem isNaN_pack (hu : u.isNaN = false) :
    (UnpackedFloat.unpack F (UnpackedFloat.pack F u)).isNaN = false := by
  have hones : (-1#F.exponentBits).toNat = 2 ^ F.exponentBits - 1 := by
    rw [BitVec.neg_one_eq_allOnes, BitVec.toNat_allOnes]
  have hbits := Nat.one_lt_two_pow (Nat.ne_of_gt F.he)
  cases u with
  | notANumber => cases hu
  | infinity s => exact isNaN_components fun _ => rfl
  | zero s => exact isNaN_components fun _ => rfl
  | finite s m e hm =>
    rw [UnpackedFloat.pack]
    split
    case isTrue hover => exact isNaN_components fun _ => rfl
    case isFalse hover =>
      split
      case isTrue hfull =>
        -- only an exponent that is too large would have all of its digits set
        refine isNaN_components fun hb => ?_
        have hb := congrArg BitVec.toNat hb
        rw [BitVec.toNat_ofNat, hones, Nat.mod_eq_of_lt (by omega)] at hb
        omega
      case isFalse hshort =>
        refine isNaN_components fun hb => ?_
        have hb := congrArg BitVec.toNat hb
        rw [BitVec.toNat_ofNat, Nat.zero_mod, hones] at hb
        omega

/-- Only two infinite terms can give a sum that is not a number. -/
theorem isNaN_add (hu : u.isFinite = true) (hv : v.isNaN = false) :
    (UnpackedFloat.add Format.binary32 u v).isNaN = false := by
  cases u with
  | notANumber => cases hu
  | infinity s => cases hu
  | zero s =>
    cases v with
    | notANumber => cases hv
    | infinity t => rfl
    | zero t => cases s <;> cases t <;> rfl
    | finite t n d hn => rfl
  | finite s m e hm =>
    cases v with
    | notANumber => cases hv
    | infinity t => rfl
    | zero t => rfl
    | finite t n d hn => exact isNaN_normalize

/-- A finite number divided by any number above zero, even an infinite one, is a number. -/
theorem isNaN_div (hu : u.isFinite = true) (hv : isAboveZero v = true) :
    (UnpackedFloat.div Format.binary32 u v).isNaN = false := by
  cases u with
  | notANumber => cases hu
  | infinity s => cases hu
  | zero s =>
    cases v with
    | notANumber => cases hv
    | infinity t => rfl
    | zero t => cases hv
    | finite t n d hn => rfl
  | finite s m e hm =>
    cases v with
    | notANumber => cases hv
    | infinity t => rfl
    | zero t => cases hv
    | finite t n d hn => exact isNaN_roundWithAccuracy

/-- A finite float may be added to any number, an infinite one too. -/
theorem isNumber_add (ha : a.isFinite = true) (hb : IsNumber b) : IsNumber (a + b) := by
  rw [isNumber_iff] at hb ⊢
  exact isNaN_pack (isNaN_add ha hb)

/-- A finite float may be divided by any number above zero, an infinite one too. -/
theorem isNumber_div (ha : a.isFinite = true) (hb : 0 < b) : IsNumber (a / b) := by
  rw [isAboveZero_iff] at hb
  rw [isNumber_iff]
  exact isNaN_pack (isNaN_div ha hb)

/-- What is not negative and below something is finite. -/
theorem isFinite_of_lt (ha : 0 ≤ a) (hab : a < b) : a.isFinite = true := by
  rw [lt_iff_compare] at hab
  have hzero : UnpackedFloat.le (.zero .positive) a.toModel.unpack = true :=
    of_decide_eq_true ha
  show a.toModel.unpack.isFinite = true
  cases hu : a.toModel.unpack with
  | notANumber =>
    rw [hu] at hzero
    cases hzero
  | infinity s =>
    rw [hu] at hzero hab
    cases s with
    | negative => cases hzero
    | positive =>
      cases hv : b.toModel.unpack with
      | infinity t =>
        rw [hv] at hab
        cases t <;> cases hab
      | _ =>
        rw [hv] at hab
        cases hab
  | zero s => rfl
  | finite s m e hm => rfl

end SparkTrail.Single
