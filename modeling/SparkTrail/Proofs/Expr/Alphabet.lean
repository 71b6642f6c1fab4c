import SparkTrail.Proofs.Expr.Allowed
import SparkTrail.Proofs.Expr.Lexing

/-!
# The alphabet of expressions

Two kinds of characters meet here: those that a token can start with, and those that the filter
keeps because they are allowed or stand in a name. Of the latter only the space is a blank, and
every other one can start a token.
-/
namespace SparkTrail.Expr

/-- A character that is a token by itself, or the half of a step. -/
def isMark (c : Char) : Bool :=
  "+-*/(),".toList.contains c

/-- A character that a token can start with. -/
def isLexical (c : Char) : Bool :=
  isNumeral c || isNameStart c || isMark c

/-- The characters of clean texts. -/
def alphabet : List Char :=
  "0123456789+-*/(),. x".toList ++ names.flatten

variable {cs : List Char} {c : Char} {p : Nat} {err : Error}

theorem mem_alphabet_of_isAllowed (h : isAllowed c = true) : c ∈ alphabet := by
  rw [isAllowed, Bool.or_eq_true, List.contains_iff_mem] at h
  rcases h with h | h
  · have hdigit : ∀ n < 58, 48 ≤ n → Char.ofNat n ∈ alphabet := by decide
    obtain ⟨hlow, hhigh⟩ := Char.isDigit_iff_toNat.mp h
    rw [← Char.ofNat_toNat c]
    exact hdigit c.toNat (Nat.lt_succ_of_le hhigh) hlow
  · have hother : ("+-*/(),. x".toList.all fun c => alphabet.contains c) = true := by decide
    exact List.contains_iff_mem.mp (List.all_eq_true.mp hother c h)

/-- Clean texts have few characters, so what holds of each of these can be checked one by one. -/
theorem IsClean.subset_alphabet (h : IsClean cs) : cs ⊆ alphabet := by
  induction h with
  | nil => exact List.nil_subset _
  | char hc _ ih => exact List.cons_subset.mpr ⟨mem_alphabet_of_isAllowed hc, ih⟩
  | name hn _ ih =>
    refine List.append_subset.mpr ⟨?_, ih⟩
    intro c hc
    exact List.mem_append_right _ (List.mem_flatten.mpr ⟨_, hn, hc⟩)

theorem eq_space_of_isBlank (h : c ∈ alphabet) (hb : Text.isBlank c = true) : c = ' ' := by
  have hall : (alphabet.all fun c => !Text.isBlank c || c == ' ') = true := by decide
  have hc := List.all_eq_true.mp hall c h
  rw [hb] at hc
  exact eq_of_beq hc

/-- Whatever is kept can stand in an expression. -/
theorem isLexical_of_mem (h : c ∈ alphabet) (hb : Text.isBlank c = false) :
    isLexical c = true := by
  have hall : (alphabet.all fun c => Text.isBlank c || isLexical c) = true := by decide
  have hc := List.all_eq_true.mp hall c h
  rwa [hb] at hc

theorem not_isBlank_of_name {name : List Char} (h : name ∈ names) :
    ∀ c ∈ name, Text.isBlank c = false := by
  have hall : (names.all fun name => name.all fun c => !Text.isBlank c) = true := by decide
  intro c hc
  have hblank := List.all_eq_true.mp (List.all_eq_true.mp hall name h) c hc
  rwa [Bool.not_eq_true'] at hblank

theorem tokensFrom_of_lexeme_error (hb : Text.isBlank c = false) (h : lexeme p c cs = .error err) :
    tokensFrom p (c :: cs) = .error err := by
  rw [tokensFrom_cons, if_neg (by simp [hb]), h]
  rfl

end SparkTrail.Expr
