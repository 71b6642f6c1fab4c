import Mathlib.Data.List.Induction
import Mathlib.Data.Nat.Digits.Defs
import Mathlib.Logic.Nontrivial.Defs
import SparkTrail.Proofs.Decimal.Digits
import SparkTrail.Settings.Environment

/-!
# Settings from the environment

What a text of the environment stands for is said here without the reader: a truth value is its own
word, and a capacity is decimal digits, maybe after a plus sign, by their places. A program adds the
digits up in 64 bits and gives up at the first product or sum that does not fit; as more digits
never stand for less, that is the same as to look at the whole number. A field that the environment
says nothing sensible about keeps its value.
-/
namespace SparkTrail.Settings

variable {text : String} {cs : List Char} {n : Nat}

/-! ## Capacities -/

def digitValue (c : Char) : Nat :=
  c.toNat - '0'.toNat

/-- Decimal digits, at least one and maybe after a plus sign, that stand for a number of 64 bits. -/
def IsCapacity (text : String) (n : Nat) : Prop :=
  ∃ digits, (text.toList = digits ∨ text.toList = '+' :: digits) ∧ digits ≠ [] ∧
    (∀ c ∈ digits, c.isDigit = true) ∧ Nat.ofDigits 10 (digits.reverse.map digitValue) = n ∧
    n < 2 ^ 64

theorem ofDigits_eq (cs : List Char) :
    Decimal.ofDigits cs = Nat.ofDigits 10 (cs.reverse.map digitValue) := by
  induction cs using List.reverseRecOn with
  | nil => rfl
  | append_singleton cs c ih =>
    rw [List.reverse_append, List.reverse_singleton, List.singleton_append, List.map_cons,
      Nat.ofDigits_cons, ← ih, Decimal.ofDigits, List.foldl_append, Nat.add_comm]
    rfl

def unsigned : List Char → List Char
  | '+' :: cs => cs
  | cs => cs

theorem unsigned_of_isDigit (h : ∀ c ∈ cs, c.isDigit = true) : unsigned cs = cs := by
  unfold unsigned
  split
  case h_1 cs => cases h '+' List.mem_cons_self
  case h_2 => rfl

theorem eq_unsigned (cs : List Char) : cs = unsigned cs ∨ cs = '+' :: unsigned cs := by
  unfold unsigned
  split
  case h_1 => exact .inr rfl
  case h_2 => exact .inl rfl

theorem readNat?_eq (text : String) : readNat? text =
    if (unsigned text.toList).isEmpty || !(unsigned text.toList).all Char.isDigit then none
    else if Decimal.ofDigits (unsigned text.toList) < UInt64.size then
      some (Decimal.ofDigits (unsigned text.toList))
    else none := rfl

theorem readNat?_of_digits (hne : unsigned text.toList ≠ [])
    (hdigits : ∀ c ∈ unsigned text.toList, c.isDigit = true) :
    readNat? text = if Decimal.ofDigits (unsigned text.toList) < UInt64.size then
      some (Decimal.ofDigits (unsigned text.toList)) else none := by
  rw [readNat?_eq, if_neg (by simp [hne, List.all_eq_true.mpr hdigits])]

theorem readNat?_of_other
    (h : unsigned text.toList = [] ∨ ∃ c ∈ unsigned text.toList, c.isDigit = false) :
    readNat? text = none := by
  rw [readNat?_eq, if_pos]
  rcases h with hnil | hother
  · simp [hnil]
  · simp [List.all_eq_false.mpr (by simpa using hother)]

theorem digits_or_other (cs : List Char) :
    (cs ≠ [] ∧ ∀ c ∈ cs, c.isDigit = true) ∨ cs = [] ∨ ∃ c ∈ cs, c.isDigit = false := by
  by_cases hne : cs = []
  · exact .inr (.inl hne)
  · by_cases hdigits : ∀ c ∈ cs, c.isDigit = true
    · exact .inl ⟨hne, hdigits⟩
    · exact .inr (.inr (by simpa using hdigits))

/-- A text is read as a number just where it stands for one of 64 bits. -/
theorem readNat?_eq_some_iff : readNat? text = some n ↔ IsCapacity text n := by
  constructor
  · intro h
    rcases digits_or_other (unsigned text.toList) with ⟨hne, hdigits⟩ | hother
    · rw [readNat?_of_digits hne hdigits, Option.ite_none_right_eq_some, Option.some.injEq] at h
      obtain ⟨hsize, rfl⟩ := h
      exact ⟨_, eq_unsigned _, hne, hdigits, (ofDigits_eq _).symm, hsize⟩
    · rw [readNat?_of_other hother] at h
      cases h
  · rintro ⟨digits, htext, hne, hdigits, rfl, hsize⟩
    have hunsigned : unsigned text.toList = digits := by
      rcases htext with h | h
      · rw [h, unsigned_of_isDigit hdigits]
      · rw [h, unsigned]
    rw [readNat?_of_digits (hunsigned ▸ hne) (hunsigned ▸ hdigits), hunsigned, ofDigits_eq]
    exact if_pos hsize

/-! ## Digit by digit in 64 bits -/

/-- The product, if it fits in 64 bits. -/
def mul? (a b : UInt64) : Option UInt64 :=
  if a.toNat * b.toNat < UInt64.size then some (a * b) else none

def add? (a b : UInt64) : Option UInt64 :=
  if a.toNat + b.toNat < UInt64.size then some (a + b) else none

/-- The number with one more digit. -/
def push? (n : UInt64) (c : Char) : Option UInt64 := do
  let shifted ← mul? n 10
  if c.isDigit then add? shifted (UInt64.ofNat (digitValue c)) else none

/-- The number that a text is, read without leaving 64 bits. -/
def readWord? (text : String) : Option UInt64 :=
  if unsigned text.toList = [] then none else (unsigned text.toList).foldlM push? 0

theorem mul?_eq_map (a b : UInt64) :
    (mul? a b).map UInt64.toNat =
      if a.toNat * b.toNat < UInt64.size then some (a.toNat * b.toNat) else none := by
  rw [mul?]
  split
  case isTrue h => rw [Option.map_some, UInt64.toNat_mul, Nat.mod_eq_of_lt h]
  case isFalse => rfl

theorem add?_eq_map (a b : UInt64) :
    (add? a b).map UInt64.toNat =
      if a.toNat + b.toNat < UInt64.size then some (a.toNat + b.toNat) else none := by
  rw [add?]
  split
  case isTrue h => rw [Option.map_some, UInt64.toNat_add, Nat.mod_eq_of_lt h]
  case isFalse => rfl

theorem push?_of_not_isDigit {c : Char} (h : c.isDigit = false) (w : UInt64) :
    push? w c = none := by
  rw [push?, h]
  cases mul? w 10 <;> rfl

/-- One more digit is refused if the number no longer fits, be it at the product or at the sum. -/
theorem push?_eq_map {c : Char} (h : c.isDigit = true) (w : UInt64) :
    (push? w c).map UInt64.toNat =
      if 10 * w.toNat + digitValue c < UInt64.size then some (10 * w.toNat + digitValue c)
      else none := by
  have hvalue : (UInt64.ofNat (digitValue c)).toNat = digitValue c := by
    obtain ⟨-, hnine⟩ := Char.isDigit_iff_toNat.mp h
    have hsmall : digitValue c ≤ '9'.toNat := Nat.le_trans (Nat.sub_le _ _) hnine
    exact Nat.mod_eq_of_lt (Nat.lt_of_le_of_lt hsmall (by decide))
  have hmul := mul?_eq_map w 10
  rw [show (10 : UInt64).toNat = 10 from rfl, Nat.mul_comm] at hmul
  rw [push?, h]
  cases hm : mul? w 10 with
  | none =>
    rw [hm, Option.map_none] at hmul
    rw [if_neg]
    · rfl
    · intro hlt
      rw [if_pos (by omega)] at hmul
      cases hmul
  | some shifted =>
    rw [hm, Option.map_some] at hmul
    have hshifted : shifted.toNat = 10 * w.toNat := by
      split at hmul
      · exact Option.some.inj hmul
      · cases hmul
    show (add? shifted _).map UInt64.toNat = _
    rw [add?_eq_map, hvalue, hshifted]

/-- A sum of 64 bits gives up exactly where the number that all the digits stand for does not fit,
however many there are and whatever was read before. -/
theorem foldlM_push? (h : ∀ c ∈ cs, c.isDigit = true) (w : UInt64) :
    (cs.foldlM push? w).map UInt64.toNat =
      let whole := cs.foldl (fun n c => 10 * n + digitValue c) w.toNat
      if whole < UInt64.size then some whole else none := by
  induction cs generalizing w with
  | nil => exact (if_pos w.toNat_lt_size).symm
  | cons c cs ih =>
    obtain ⟨hc, hcs⟩ := List.forall_mem_cons.mp h
    have hpush := push?_eq_map hc w
    rw [List.foldlM_cons, List.foldl_cons]
    cases hp : push? w c with
    | some next =>
      rw [hp, Option.map_some] at hpush
      split at hpush
      · rw [← Option.some.inj hpush]
        exact ih hcs next
      · cases hpush
    | none =>
      rw [hp, Option.map_none] at hpush
      have hlarge : ¬ 10 * w.toNat + digitValue c < UInt64.size := by
        intro hlt
        rw [if_pos hlt] at hpush
        cases hpush
      -- what is too large already is not made smaller by the digits that are left
      have hmore := Decimal.le_foldl_digits (10 * w.toNat + digitValue c) cs
      exact (if_neg fun hlt => hlarge (Nat.lt_of_le_of_lt hmore hlt)).symm

/-- One character that is no digit makes the whole text no number, wherever it stands. -/
theorem foldlM_push?_eq_none (h : ∃ c ∈ cs, c.isDigit = false) (w : UInt64) :
    cs.foldlM push? w = none := by
  induction cs generalizing w with
  | nil =>
    obtain ⟨c, hc, -⟩ := h
    cases hc
  | cons c cs ih =>
    rw [List.foldlM_cons]
    cases hp : push? w c with
    | none => rfl
    | some next =>
      obtain ⟨d, hd, hnot⟩ := h
      rcases List.mem_cons.mp hd with rfl | hd
      · rw [push?_of_not_isDigit hnot] at hp
        cases hp
      · exact ih ⟨d, hd, hnot⟩ next

/-- To read digit by digit in 64 bits is to read the whole number and to see whether it fits. -/
theorem readWord?_eq (text : String) : (readWord? text).map UInt64.toNat = readNat? text := by
  rw [readWord?]
  rcases digits_or_other (unsigned text.toList) with ⟨hne, hdigits⟩ | hother
  · rw [if_neg hne, foldlM_push? hdigits, readNat?_of_digits hne hdigits]
    rfl
  · rw [readNat?_of_other hother]
    rcases hother with hnil | hdigit
    · rw [if_pos hnil]
      rfl
    · rw [if_neg (by rintro hnil; simp [hnil] at hdigit), foldlM_push?_eq_none hdigit]
      rfl

/-! ## What the environment decides -/

namespace Environment

/-- The field has this value, whatever the settings were. -/
def Sets {α : Type} (env : Environment) (field : Settings → α) (v : α) : Prop :=
  ∀ s : Settings, field (s.override env) = v

/-- The field stays as it is in all settings. -/
def Keeps {α : Type} (env : Environment) (field : Settings → α) : Prop :=
  ∀ s : Settings, field (s.override env) = field s

end Environment

section Default

variable {α : Type} [Nontrivial α] {o : Option α} {v : α}

theorem getD_eq_iff : (∀ d, o.getD d = v) ↔ o = some v := by
  cases o with
  | none =>
    obtain ⟨d, hd⟩ := exists_ne v
    exact iff_of_false (fun h => hd (h d)) (by simp)
  | some a => simp

theorem getD_self_iff : (∀ d, o.getD d = d) ↔ o = none := by
  cases o with
  | none => simp
  | some a =>
    obtain ⟨d, hd⟩ := exists_ne a
    exact iff_of_false (fun h => hd (h d).symm) (by simp)

end Default

variable {env : Environment}

theorem sets_verbose_iff {b : Bool} :
    env.Sets (·.verbose) b ↔ env.verbose.bind readBool? = some b := by
  rw [← getD_eq_iff]
  exact ⟨fun h d => h ⟨d, .default, .default⟩, fun h s => h s.verbose⟩

theorem keeps_verbose_iff : env.Keeps (·.verbose) ↔ env.verbose.bind readBool? = none := by
  rw [← getD_self_iff]
  exact ⟨fun h d => h ⟨d, .default, .default⟩, fun h s => h s.verbose⟩

theorem sets_capacity_iff :
    env.Sets (·.pool.capacity) n ↔ env.capacity.bind readNat? = some n := by
  rw [← getD_eq_iff]
  exact ⟨fun h d => h ⟨false, ⟨d⟩, .default⟩, fun h s => h s.pool.capacity⟩

theorem keeps_capacity_iff :
    env.Keeps (·.pool.capacity) ↔ env.capacity.bind readNat? = none := by
  rw [← getD_self_iff]
  exact ⟨fun h d => h ⟨false, ⟨d⟩, .default⟩, fun h s => h s.pool.capacity⟩

theorem readBool?_eq_some_iff {b : Bool} :
    readBool? text = some b ↔ text = toString b := by
  unfold readBool?
  split
  case h_1 => cases b <;> decide
  case h_2 => cases b <;> decide
  case h_3 htrue hfalse =>
    refine iff_of_false (by simp) ?_
    cases b with
    | true => exact htrue
    | false => exact hfalse

theorem override_override (s : Settings) (env : Environment) :
    (s.override env).override env = s.override env := by
  have hagain : ∀ {α : Type} (o : Option α) (d : α), o.getD (o.getD d) = o.getD d := by
    intro α o d
    cases o <;> rfl
  simp only [override, hagain]

/-- Validation refuses a capacity of zero and nothing else. -/
theorem validate_eq_error_iff (s : Settings) :
    (∃ err, s.validate = .error err) ↔ s.pool.capacity = 0 := by
  rw [validate]
  split
  case isTrue h => exact iff_of_true ⟨_, rfl⟩ h
  case isFalse h =>
    refine iff_of_false ?_ h
    rintro ⟨err, herr⟩
    cases herr

theorem bind_readBool?_eq_some_iff {b : Bool} :
    env.verbose.bind readBool? = some b ↔ env.verbose = some (toString b) := by
  rw [Option.bind_eq_some_iff]
  constructor
  · rintro ⟨text, htext, hread⟩
    rw [htext, readBool?_eq_some_iff.mp hread]
  · intro h
    exact ⟨_, h, readBool?_eq_some_iff.mpr rfl⟩

theorem bind_readNat?_eq_some_iff : env.capacity.bind readNat? = some n ↔
    ∃ text, env.capacity = some text ∧ IsCapacity text n := by
  simp only [Option.bind_eq_some_iff, readNat?_eq_some_iff]

/-- The environment turns reports on or off where its first text is one of the two words, and sets
the capacity where its second text is a number of 64 bits in decimal digits; it sets no field to
anything else. A field that it does not set is as it was, and so is all that it has no text for. To
apply it again changes nothing. Settings are then refused just where there is no room in the pool.
To read a capacity digit by digit in 64 bits, and to give up as soon as that is too narrow, is to
read it. -/
theorem override_exact (env : Environment) :
    (env.Sets (·.verbose) true ↔ env.verbose = some "true") ∧
    (env.Sets (·.verbose) false ↔ env.verbose = some "false") ∧
    (env.Keeps (·.verbose) ↔ env.verbose ≠ some "true" ∧ env.verbose ≠ some "false") ∧
    (∀ n, env.Sets (·.pool.capacity) n ↔
      ∃ text, env.capacity = some text ∧ IsCapacity text n) ∧
    (env.Keeps (·.pool.capacity) ↔
      ¬ ∃ text n, env.capacity = some text ∧ IsCapacity text n) ∧
    env.Keeps (·.logging) ∧
    (∀ s : Settings, (s.override env).override env = s.override env) ∧
    (∀ s : Settings, (∃ err, (s.override env).validate = .error err) ↔
      (s.override env).pool.capacity = 0) ∧
    ∀ text, readNat? text = (readWord? text).map UInt64.toNat := by
  have hverbose : ∀ b, env.Sets (·.verbose) b ↔ env.verbose = some (toString b) :=
    fun b => sets_verbose_iff.trans bind_readBool?_eq_some_iff
  refine ⟨hverbose true, hverbose false, ?_, ?_, ?_, fun _ => rfl,
    fun s => override_override s env, fun s => validate_eq_error_iff _,
    fun text => (readWord?_eq text).symm⟩
  · rw [keeps_verbose_iff, Option.eq_none_iff_forall_ne_some, Bool.forall_bool, and_comm]
    exact and_congr bind_readBool?_eq_some_iff.not bind_readBool?_eq_some_iff.not
  · intro n
    exact sets_capacity_iff.trans bind_readNat?_eq_some_iff
  · rw [keeps_capacity_iff, Option.eq_none_iff_forall_ne_some, exists_comm, not_exists]
    exact forall_congr' fun n => bind_readNat?_eq_some_iff.not

/-- Leading zeros do not count, and the numbers that do not fit begin right behind those that do. -/
example : readNat? "+0018446744073709551615" = some 18446744073709551615 ∧
    readNat? "18446744073709551616" = none := by
  decide +kernel

end SparkTrail.Settings
