import SparkTrail.Decimal.Literal

/-!
# The decimal digits of a number

A number is written with decimal digits, none of them a zero in front, and the digits stand for it.
-/
namespace SparkTrail.Decimal

variable {n : Nat} {c : Char} {ds : List Char}

theorem isDigit_of_mem_toDigits (h : c ∈ Nat.toDigits 10 n) : c.isDigit = true :=
  Nat.isDigit_of_mem_toDigits (by decide) (by decide) h

theorem ofDigits_toDigits (n : Nat) : ofDigits (Nat.toDigits 10 n) = n := by
  rw [ofDigits, ← Nat.ofDigitChars_eq_foldl, Nat.ofDigitChars_ten_toDigits]

theorem toList_toString (n : Nat) : (toString n).toList = Nat.toDigits 10 n :=
  Nat.toList_repr

/-- Every number has a first digit. -/
theorem toDigits_start (n : Nat) :
    ∃ c more, Nat.toDigits 10 n = c :: more ∧ c.isDigit = true := by
  obtain ⟨c, more, h⟩ := List.exists_cons_of_ne_nil (Nat.toDigits_ne_nil (n := n) (b := 10))
  exact ⟨c, more, h, isDigit_of_mem_toDigits (h ▸ List.mem_cons_self)⟩

/-- Only the number zero starts with a zero. -/
theorem eq_nil_of_toDigits (h : Nat.toDigits 10 n = '0' :: ds) : ds = [] := by
  induction n using Nat.strongRecOn generalizing ds with
  | ind n ih =>
    by_cases hn : n < 10
    · rw [Nat.toDigits_of_lt_base hn] at h
      exact (List.cons.inj h).2.symm
    · rw [Nat.toDigits_of_base_le (by decide) (by omega)] at h
      -- the digits before the last one are those of a number that is not zero
      obtain ⟨c, front, hfront⟩ := List.exists_cons_of_ne_nil (Nat.toDigits_ne_nil (n := n / 10))
      rw [hfront, List.cons_append] at h
      obtain ⟨rfl, -⟩ := List.cons.inj h
      have hnil := ih (n / 10) (by omega) hfront
      have hzero := ofDigits_toDigits (n / 10)
      rw [hfront, hnil] at hzero
      change 0 = n / 10 at hzero
      omega

/-- More digits never stand for less. -/
theorem le_foldl_digits (n : Nat) (ds : List Char) :
    n ≤ ds.foldl (fun n d => 10 * n + (d.toNat - '0'.toNat)) n := by
  induction ds generalizing n with
  | nil => exact Nat.le_refl n
  | cons d ds ih =>
    have hlonger := ih (10 * n + (d.toNat - '0'.toNat))
    rw [List.foldl_cons]
    omega

end SparkTrail.Decimal
