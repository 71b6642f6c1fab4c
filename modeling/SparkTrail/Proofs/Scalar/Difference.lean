import SparkTrail.Proofs.Scalar.Order

/-!
# Differences of unequal floats

All finite floats are whole multiples of the least one, so the difference of two unequal ones is not
less than that and is not rounded to zero: what is less than another float can be told by the sign
of their difference, down to the least floats.
-/
namespace SparkTrail.Single

open Float.Model Float.Model.UnpackedFloat

def isAboveZero : UnpackedFloat → Bool
  | .infinity .positive => true
  | .finite .positive _ _ _ => true
  | _ => false

/-- A mantissa and an exponent as a float has them: full unless the exponent is the least one. -/
structure IsCanonical (m : ℕ) (e : ℤ) : Prop where
  lt : m < 2 ^ 24
  le : -149 ≤ e
  full : 2 ^ 23 ≤ m ∨ e = -149

variable {s : Sign} {m n : ℕ} {e : ℤ} {acc : Accuracy}

theorem exponentBias_eq : Format.binary32.exponentBias = 127 := rfl

/-- Decoding gives a full mantissa, or the least exponent there is. -/
theorem isCanonical_of_unpack {b : BitVec Format.binary32.numBits} {hm : 0 < m}
    (h : UnpackedFloat.unpack Format.binary32 b = .finite s m e hm) : IsCanonical m e := by
  rw [UnpackedFloat.unpack] at h
  simp only [exponentBias_eq] at h
  have hmantissa := (unpackMantissa b).isLt
  split at h
  · split at h <;> cases h
  case isFalse =>
    split at h
    case isTrue hb =>
      split at h
      · cases h
      · cases h
        rw [hb]
        exact ⟨hmantissa.trans (by decide), by decide, .inr rfl⟩
    case isFalse hb =>
      cases h
      have hexponent : (unpackExponent b).toNat ≠ 0 := fun h0 => hb (BitVec.eq_of_toNat_eq h0)
      have hfull : (1#1 ++ unpackMantissa b).toNat = 2 ^ 23 + (unpackMantissa b).toNat := by
        rw [BitVec.toNat_append, ← Nat.shiftLeft_add_eq_or_of_lt hmantissa]
        rfl
      rw [hfull]
      constructor <;> omega

/-! ## Rounding keeps a number above zero -/

theorem mantissa_shiftRight (em : ExtendedMantissa) (k : ℕ) :
    (em >>> k).mantissa = em.mantissa / 2 ^ k := by
  show (k.repeat ExtendedMantissa.shiftRightOne em).mantissa = _
  induction k with
  | zero => rw [pow_zero, Nat.div_one]; rfl
  | succ k ih =>
    rw [pow_succ, ← Nat.div_div_eq_div_mul, ← ih]
    rfl

theorem mantissa_ofMantissaAndAccuracy (m : ℕ) (acc : Accuracy) :
    (ExtendedMantissa.ofMantissaAndAccuracy m acc).mantissa = m := by
  cases acc with
  | exact => rfl
  | inexact o => cases o <;> rfl

theorem le_roundedMantissa (em : ExtendedMantissa) : em.mantissa ≤ em.roundedMantissa := by
  rw [ExtendedMantissa.roundedMantissa]
  cases em.accuracy with
  | exact => exact le_rfl
  | inexact o => cases o <;> simp [Accuracy.roundToNearestEven]

/-- How far a mantissa is shifted to fit. -/
def excess (m : ℕ) (e : ℤ) : ℕ :=
  (Format.binary32.targetExponent (totalExponent m e) - e).toNat

theorem excess_eq (m : ℕ) (e : ℤ) :
    excess m e = (max ((m.log2 : ℤ) + 1 + e - 24) (-149) - e).toNat := rfl

/-- From the least exponent on, a mantissa keeps its first digit. -/
theorem div_excess_pos (hm : 0 < m) (he : -149 ≤ e) : 0 < m / 2 ^ excess m e := by
  have hk : excess m e ≤ m.log2 := by
    rw [excess_eq]
    omega
  have hpow : 2 ^ excess m e ≤ m :=
    (Nat.pow_le_pow_right two_pos hk).trans (Nat.log2_self_le hm.ne')
  exact Nat.div_pos hpow (Nat.two_pow_pos _)

theorem div_excess_lt (m : ℕ) (e : ℤ) : m / 2 ^ excess m e < 2 ^ 24 := by
  have hk : m.log2 + 1 ≤ 24 + excess m e := by
    rw [excess_eq]
    omega
  rw [Nat.div_lt_iff_lt_mul (Nat.two_pow_pos _), ← pow_add]
  exact Nat.lt_log2_self.trans_le (Nat.pow_le_pow_right two_pos hk)

/-- A number is shifted, rounded, and shifted again where rounding has made it a digit longer. -/
theorem exists_roundWithAccuracy (hm : 0 < m) (he : -149 ≤ e) : ∃ n d hn,
    roundWithAccuracy Format.binary32 s m e acc = .finite s n d hn ∧ n < 2 ^ 24 ∧ -149 ≤ d := by
  let rounded := (ExtendedMantissa.ofMantissaAndAccuracy m acc >>> excess m e).roundedMantissa
  have hrounded : 0 < rounded := by
    refine lt_of_lt_of_le ?_ (le_roundedMantissa _)
    rw [mantissa_shiftRight, mantissa_ofMantissaAndAccuracy]
    exact div_excess_pos hm he
  let d := e + excess m e
  have hd : -149 ≤ d := by omega
  have hlast : (ExtendedMantissa.ofMantissaAndAccuracy rounded .exact >>> excess rounded d).mantissa
      = rounded / 2 ^ excess rounded d := by
    rw [mantissa_shiftRight, mantissa_ofMantissaAndAccuracy]
  have hpos := div_excess_pos hrounded hd
  rw [← hlast] at hpos
  refine ⟨_, d + excess rounded d, hpos, dif_neg hpos.ne', ?_, by omega⟩
  rw [hlast]
  exact div_excess_lt rounded d

theorem exists_round (hm : 0 < m) (he : -149 ≤ e) : ∃ n d hn,
    UnpackedFloat.round Format.binary32 s m e = .finite s n d hn ∧ n < 2 ^ 24 ∧ -149 ≤ d := by
  have htarget : -149 ≤ Format.binary32.targetExponent (totalExponent m e) := le_max_right _ _
  refine exists_roundWithAccuracy ?_ ?_
  · rw [Nat.shiftLeft_eq]
    exact Nat.mul_pos hm (Nat.two_pow_pos _)
  · omega

/-! ## Packing keeps a number above zero -/

theorem isAboveZero_components {b : BitVec 8} {c : BitVec 23} (hzero : b = 0#8 → c ≠ 0#23)
    (hnan : b = -1#8 → c = 0#23) : isAboveZero (UnpackedFloat.unpack Format.binary32
      (packComponents Format.binary32 .positive b c)) = true := by
  rw [UnpackedFloat.unpack]
  simp only [unpackExponent_packComponents, unpackMantissa_packComponents,
    unpackSign_packComponents, Sign.ofBitVec_toBitVec]
  split
  case isTrue hb =>
    rw [if_pos (hnan hb)]
    rfl
  case isFalse hb =>
    split
    case isTrue hb =>
      rw [dif_neg (hzero hb)]
      rfl
    case isFalse hb => rfl

/-- A positive number whose mantissa fits is not packed as zero. -/
theorem isAboveZero_pack {hm : 0 < m} (hlt : m < 2 ^ 24) (he : -149 ≤ e) :
    isAboveZero (Float32.Model.pack (.finite .positive m e hm)).unpack = true := by
  show isAboveZero (UnpackedFloat.unpack Format.binary32
    (UnpackedFloat.pack Format.binary32 (.finite .positive m e hm))) = true
  rw [UnpackedFloat.pack]
  dsimp only
  split
  case isTrue hover => exact isAboveZero_components (by decide) fun _ => rfl
  case isFalse hover =>
    split
    case isTrue hfull =>
      apply isAboveZero_components
      · intro hb
        have hb := congrArg BitVec.toNat hb
        simp only [BitVec.toNat_ofNat, exponentBias_eq] at hb hover
        omega
      · intro hb
        have hb := congrArg BitVec.toNat hb
        have hones : (-1#8).toNat = 255 := rfl
        simp only [BitVec.toNat_ofNat, exponentBias_eq, hones] at hb hover
        omega
    case isFalse hshort =>
      -- with the least exponent it is the mantissa that keeps the float from being zero
      apply isAboveZero_components
      · intro _ hc
        have hc := congrArg BitVec.toNat hc
        simp only [BitVec.toNat_ofNat] at hc
        have hbits : Format.binary32.mantissaBits = 24 := rfl
        have hlog : m.log2 < 24 := (Nat.log2_lt hm.ne').mpr hlt
        have hlow : m < 2 ^ 23 := (Nat.log2_lt hm.ne').mp (by omega)
        omega
      · nofun

theorem isAboveZero_pack_infinity :
    isAboveZero (Float32.Model.pack (.infinity .positive)).unpack = true :=
  isAboveZero_components (by decide) fun _ => rfl

theorem isAboveZero_iff (v : Float32) : 0 < v ↔ isAboveZero v.toModel.unpack = true := by
  have hlt : 0 < v ↔ UnpackedFloat.lt (.zero .positive) v.toModel.unpack = true := by
    show decide (UnpackedFloat.lt (0 : Float32).toModel.unpack v.toModel.unpack = true) = true ↔ _
    rw [decide_eq_true_iff]
    rfl
  rw [hlt, UnpackedFloat.lt]
  cases v.toModel.unpack with
  | notANumber => simp [UnpackedFloat.compare, isAboveZero]
  | infinity s => cases s <;> simp [UnpackedFloat.compare, isAboveZero]
  | zero s => simp [UnpackedFloat.compare, isAboveZero]
  | finite s m e h => cases s <;> simp [UnpackedFloat.compare, isAboveZero]

/-! ## The difference -/

/-- What is smaller by rank is smaller on the scale of the smaller exponent. -/
theorem shiftLeft_lt {m' : ℕ} {e' : ℤ} (h : IsCanonical m e) (h' : IsCanonical m' e')
    (hlt : e < e' ∨ e = e' ∧ m < m') :
    m <<< (e - min e e').toNat < m' <<< (e' - min e e').toNat := by
  rcases hlt with hlt | ⟨rfl, hlt⟩
  · have hsame : (e - min e e').toNat = 0 := by omega
    obtain ⟨k, hk⟩ : ∃ k, (e' - min e e').toNat = k + 1 := Nat.exists_eq_add_one.mpr (by omega)
    have hfull : 2 ^ 23 ≤ m' := by
      have := h.le
      have := h'.full
      omega
    have hpow : 2 ^ 1 ≤ 2 ^ (k + 1) := Nat.pow_le_pow_right two_pos (by omega)
    rw [hsame, hk, Nat.shiftLeft_zero, Nat.shiftLeft_eq]
    calc m < 2 ^ 23 * 2 ^ 1 := h.lt
      _ ≤ m' * 2 ^ (k + 1) := Nat.mul_le_mul hfull hpow
  · rw [min_self, sub_self, Int.toNat_zero, Nat.shiftLeft_zero, Nat.shiftLeft_zero]
    exact hlt

theorem isAboveZero_pack_normalize {d : ℤ} (hd : 0 < d) (he : -149 ≤ e) :
    isAboveZero (Float32.Model.pack (normalize Format.binary32 d e .positive)).unpack = true := by
  have hcompare : compare d 0 = .gt := compare_gt_iff_gt.mpr hd
  obtain ⟨n, d', hn, hround, hlt, hle⟩ :=
    exists_round (s := .positive) (m := d.toNat) (e := e) (by omega) he
  rw [UnpackedFloat.normalize, hcompare]
  dsimp only
  rw [hround]
  exact isAboveZero_pack hlt hle

theorem lt_of_compare {m' : ℕ} {e' : ℤ}
    (h : some ((compare e e').then (compare m m')) = some Ordering.lt) :
    e < e' ∨ e = e' ∧ m < m' := by
  rw [Option.some_inj, Ordering.then_eq_lt] at h
  exact h.imp compare_lt_iff_lt.mp (.imp compare_eq_iff_eq.mp compare_lt_iff_lt.mp)

theorem lt_of_compare_swap {m' : ℕ} {e' : ℤ}
    (h : some ((compare e e').then (compare m m')).swap = some Ordering.lt) :
    e' < e ∨ e' = e ∧ m' < m := by
  rw [Ordering.swap_then, ← Std.OrientedOrd.eq_swap, ← Std.OrientedOrd.eq_swap] at h
  exact lt_of_compare h

/-- At one common exponent the mantissas are in the order of the numbers. -/
theorem sub_apply_pos {t : Sign} {d : ℤ} {hm : 0 < m} {hn : 0 < n} (hme : IsCanonical m e)
    (hnd : IsCanonical n d)
    (h : UnpackedFloat.compare (.finite s m e hm) (.finite t n d hn) = some .lt) :
    0 < t.apply ↑(n <<< (d - min d e).toNat) - s.apply ↑(m <<< (e - min d e).toNat) := by
  cases s with
  | positive => cases t with
    | negative => cases h
    | positive =>
      have hlt := shiftLeft_lt hme hnd (lt_of_compare h)
      rw [min_comm] at hlt
      exact sub_pos.mpr (Int.ofNat_lt.mpr hlt)
  | negative => cases t with
    | positive =>
      have hpos : 0 < n <<< (d - min d e).toNat := by
        rw [Nat.shiftLeft_eq]
        exact Nat.mul_pos hn (Nat.two_pow_pos _)
      generalize n <<< (d - min d e).toNat = k at hpos
      generalize m <<< (e - min d e).toNat = l
      show 0 < (k : ℤ) - -(l : ℤ)
      omega
    | negative =>
      have hlt := shiftLeft_lt hnd hme (lt_of_compare_swap h)
      exact sub_pos.mpr (neg_lt_neg (Int.ofNat_lt.mpr hlt))

/-- Every finite part of a decoded float is as a float has it. -/
def Canonical (u : UnpackedFloat) : Prop :=
  ∀ s m e hm, u = .finite s m e hm → IsCanonical m e

/-- What is greater stays so: the difference is at least the least positive float and is not rounded
away. -/
theorem isAboveZero_pack_sub {u v : UnpackedFloat} (hu : Canonical u) (hv : Canonical v)
    (h : UnpackedFloat.compare u v = some .lt) :
    isAboveZero (Float32.Model.pack (UnpackedFloat.sub Format.binary32 v u)).unpack = true := by
  -- only the difference of two finite numbers is rounded at all
  cases u with
  | notANumber => cases v <;> cases h
  | infinity s =>
    cases s with
    | positive => cases v with
      | infinity t => cases t <;> cases h
      | _ => cases h
    | negative => cases v with
      | notANumber => cases h
      | infinity t => cases t with
        | negative => cases h
        | positive => exact isAboveZero_pack_infinity
      | zero t => exact isAboveZero_pack_infinity
      | finite t n d hn => exact isAboveZero_pack_infinity
  | zero s => cases v with
    | notANumber => cases h
    | infinity t => cases t with
      | negative => cases h
      | positive => exact isAboveZero_pack_infinity
    | zero t => cases h
    | finite t n d hn => cases t with
      | negative => cases h
      | positive => exact isAboveZero_pack (hv _ n d hn rfl).lt (hv _ n d hn rfl).le
  | finite s m e hm =>
    have hme := hu s m e hm rfl
    cases v with
    | notANumber => cases s <;> cases h
    | infinity t => cases t with
      | negative => cases s <;> cases h
      | positive => exact isAboveZero_pack_infinity
    | zero t => cases s with
      | positive => cases h
      | negative => exact isAboveZero_pack hme.lt hme.le
    | finite t n d hn =>
      have hnd := hv t n d hn rfl
      have hmin : -149 ≤ min d e := le_min hnd.le hme.le
      exact isAboveZero_pack_normalize (sub_apply_pos hme hnd h) hmin

/-- However close together two floats are, the sign of their difference tells which one is less. -/
theorem sub_pos_of_lt {a b : Float32} (h : a < b) : 0 < b - a := by
  rw [isAboveZero_iff]
  have hcanonical (v : Float32) : Canonical v.toModel.unpack :=
    fun s m e hm h => isCanonical_of_unpack h
  exact isAboveZero_pack_sub (hcanonical a) (hcanonical b) (lt_iff_compare.mp h)

end SparkTrail.Single
