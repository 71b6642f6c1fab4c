import Mathlib.Data.List.TakeWhile
import Mathlib.Data.String.Basic
import SparkTrail.Proofs.Expr.Alphabet
import SparkTrail.Proofs.Text.Reading

/-!
# What the lexer can meet

At a character that is no blank there is either a lexeme, which is as long as it can be before what
follows it, or a fault: a run of digits and dots that is not one number, or a character that no
token starts with. Both are said here without the lexer, and then what the lexer does at each of
them.
-/
namespace SparkTrail.Expr

open String (utf8Len)
open Text (EndsRun)

def Step.sign : Step → Char
  | .increment => '+'
  | .decrement => '-'

def Step.single : Step → TokenKind
  | .increment => .plus
  | .decrement => .minus

/-- Digits and dots that are not one number: there is no digit, or there are two dots. -/
def IsMalformed (run : List Char) : Prop :=
  (∀ c ∈ run, c.isDigit = false) ∨ 2 ≤ run.count '.'

/-- The characters `lexeme` are a token of the kind before `rest`. A numeral is a run of digits and
dots and a name a run of letters, digits and underscores that does not start with a digit; neither
could go on in `rest`. Two equal signs are one token whatever follows. -/
inductive IsLexeme : TokenKind → (lexeme rest : List Char) → Prop
  | number {run rest : List Char} {v : Float} : (∀ c ∈ run, isNumeral c = true) →
      EndsRun isNumeral rest → Decimal.read? run = some v → IsLexeme (.number v) run rest
  | name {c : Char} {more rest : List Char} : isNameStart c = true →
      (∀ d ∈ more, isNameRest d = true) → EndsRun isNameRest rest →
      IsLexeme (.name (String.ofList (c :: more))) (c :: more) rest
  | sign {rest : List Char} (s : Step) : rest.head? ≠ some s.sign → IsLexeme s.single [s.sign] rest
  | step {rest : List Char} (s : Step) : IsLexeme (.step s) [s.sign, s.sign] rest
  | mark {c : Char} {k : TokenKind} {rest : List Char} : (c, k) ∈ marks → IsLexeme k [c] rest

/-- The text that begins at the byte `position` begins with this fault. -/
inductive IsFault (position : Nat) : List Char → Error → Prop
  | numeral {run rest : List Char} : run ≠ [] → (∀ c ∈ run, isNumeral c = true) →
      EndsRun isNumeral rest → IsMalformed run →
      IsFault position (run ++ rest) (.invalidNumber (String.ofList run) position)
  | char {c : Char} {rest : List Char} : Text.isBlank c = false → isLexical c = false →
      IsFault position (c :: rest) (.unexpectedChar c position)

variable {c : Char} {cs more rest lexeme : List Char} {k : TokenKind} {p : Nat} {err : Error}

section Characters

theorem toNat_of_isNameStart (h : isNameStart c = true) :
    65 ≤ c.toNat ∧ c.toNat ≤ 90 ∨ 97 ≤ c.toNat ∧ c.toNat ≤ 122 ∨ c.toNat = 95 := by
  have hranges : (decide (c.val ≥ 'A'.val ∧ c.val ≤ 'Z'.val) ||
      decide (c.val ≥ 'a'.val) && decide (c.val ≤ 'z'.val) || c == '_') = true := h
  simp only [Bool.or_eq_true, Bool.and_eq_true, decide_eq_true_eq, beq_iff_eq, ge_iff_le,
    UInt32.le_iff_toNat_le] at hranges
  rcases hranges with (hupper | hlower) | rfl
  · exact Or.inl hupper
  · exact Or.inr (Or.inl hlower)
  · exact Or.inr (Or.inr rfl)

theorem toNat_of_isNumeral (h : isNumeral c = true) :
    48 ≤ c.toNat ∧ c.toNat ≤ 57 ∨ c.toNat = 46 := by
  rw [isNumeral, Bool.or_eq_true, Char.isDigit_iff_toNat, beq_iff_eq] at h
  rcases h with hdigit | rfl
  · exact Or.inl hdigit
  · exact Or.inr rfl

/-- Whatever a token can start with is ASCII and visible, so it takes one byte and is no blank. -/
theorem toNat_of_isLexical (h : isLexical c = true) : 0x20 < c.toNat ∧ c.toNat < 0x7f := by
  rw [isLexical, Bool.or_eq_true, Bool.or_eq_true] at h
  rcases h with (h | h) | h
  · have := toNat_of_isNumeral h
    omega
  · have := toNat_of_isNameStart h
    omega
  · rw [isMark, List.contains_iff_mem] at h
    have hall : ("+-*/(),".toList.all fun c => 0x20 < c.toNat && c.toNat < 0x7f) = true := by decide
    simpa using List.all_eq_true.mp hall c h

theorem not_isBlank_of_isLexical (h : isLexical c = true) : Text.isBlank c = false := by
  obtain ⟨hlow, hhigh⟩ := toNat_of_isLexical h
  simp only [Text.isBlank, Bool.or_eq_false_iff, Bool.and_eq_false_imp, decide_eq_true_eq,
    decide_eq_false_iff_not, beq_eq_false_iff_ne]
  omega

/-- Characters that tokens are made of are one byte each. -/
theorem utf8Len_of_isLexical (h : ∀ c ∈ cs, isLexical c = true) : utf8Len cs = cs.length := by
  induction cs with
  | nil => rfl
  | cons c cs ih =>
    have hsize : c.utf8Size = 1 := by
      rw [Char.utf8Size_eq_one_iff, UInt32.le_iff_toNat_le]
      exact Nat.le_of_lt_succ (Nat.lt_succ_of_lt (toNat_of_isLexical (h c List.mem_cons_self)).2)
    rw [String.utf8Len_cons, ih fun d hd => h d (List.mem_cons_of_mem c hd), hsize,
      List.length_cons]

theorem isLexical_of_isNumeral (h : isNumeral c = true) : isLexical c = true := by
  simp [isLexical, h]

theorem isLexical_of_isNameRest (h : isNameRest c = true) : isLexical c = true := by
  rw [isNameRest, Bool.or_eq_true] at h
  rcases h with h | h <;> simp [isLexical, isNumeral, h]

theorem not_isNumeral_of_isNameStart (h : isNameStart c = true) : isNumeral c = false := by
  rw [← Bool.not_eq_true]
  intro hn
  have := toNat_of_isNumeral hn
  have := toNat_of_isNameStart h
  omega

/-- A run of digits and dots has no dot, or digits before its first one. -/
theorem numeral_cases (h : ∀ c ∈ cs, isNumeral c = true) :
    (∀ c ∈ cs, c.isDigit = true) ∨
      ∃ whole fraction, cs = whole ++ '.' :: fraction ∧ ∀ c ∈ whole, c.isDigit = true := by
  have hsplit := List.takeWhile_append_dropWhile (p := Char.isDigit) (l := cs)
  have hwhole : ∀ c ∈ cs.takeWhile Char.isDigit, c.isDigit = true :=
    fun c hc => List.mem_takeWhile_imp hc
  cases hrest : cs.dropWhile Char.isDigit with
  | nil => exact Or.inl (List.dropWhile_eq_nil_iff.mp hrest)
  | cons d fraction =>
    have hd := List.head?_dropWhile_not Char.isDigit cs
    rw [hrest] at hd hsplit
    have hdot := h d (hsplit ▸ List.mem_append_right _ List.mem_cons_self)
    rw [isNumeral, show d.isDigit = false from hd, Bool.false_or, beq_iff_eq] at hdot
    exact Or.inr ⟨_, fraction, hdot ▸ hsplit.symm, hwhole⟩

theorem read?_digits (h : ∀ c ∈ cs, c.isDigit = true) : Decimal.read? cs = none ↔ cs = [] := by
  have hend : EndsRun Char.isDigit [] := Text.endsRun_nil
  have htake := Text.takeWhile_run h hend
  have hdrop := Text.dropWhile_run h hend
  rw [List.append_nil] at htake hdrop
  rw [Decimal.read?, htake, hdrop]
  cases cs <;> simp

/-- Digits around one dot are a numeral unless there is no digit at all. -/
theorem read?_dot {whole fraction : List Char} (h : ∀ c ∈ whole, c.isDigit = true) :
    Decimal.read? (whole ++ '.' :: fraction) = none ↔
      (whole = [] ∧ fraction = []) ∨ ∃ c ∈ fraction, c.isDigit = false := by
  have hdot : EndsRun Char.isDigit ('.' :: fraction) := Text.endsRun_cons rfl fraction
  rw [Decimal.read?, Text.takeWhile_run h hdot, Text.dropWhile_run h hdot]
  simp only [ite_eq_right_iff, reduceCtorEq, imp_false, Bool.not_eq_true, Bool.and_eq_false_iff,
    List.all_eq_false]
  simp [or_comm]

/-- Digits and dots are a number just when there is a digit and at most one dot. -/
theorem read?_eq_none_iff (h : ∀ c ∈ cs, isNumeral c = true) :
    Decimal.read? cs = none ↔ IsMalformed cs := by
  rcases numeral_cases h with hd | ⟨whole, fraction, rfl, hwhole⟩
  · rw [read?_digits hd, IsMalformed]
    have hnodot : cs.count '.' = 0 := List.count_eq_zero.mpr fun hmem => by cases hd '.' hmem
    constructor
    · rintro rfl
      exact Or.inl (by simp)
    · rintro (hno | hdots)
      · exact List.eq_nil_iff_forall_not_mem.mpr fun c hc => by
          cases (hd c hc).symm.trans (hno c hc)
      · omega
  · rw [read?_dot hwhole, IsMalformed]
    have hnodot : whole.count '.' = 0 := List.count_eq_zero.mpr fun hmem => by cases hwhole '.' hmem
    rw [List.count_append, List.count_cons_self, hnodot]
    have hfraction : (∃ c ∈ fraction, c.isDigit = false) ↔ 0 < fraction.count '.' := by
      rw [List.count_pos_iff]
      constructor
      · rintro ⟨c, hc, hdigit⟩
        have hn := h c (List.mem_append_right _ (List.mem_cons_of_mem _ hc))
        rw [isNumeral, hdigit, Bool.false_or, beq_iff_eq] at hn
        exact hn ▸ hc
      · intro hmem
        exact ⟨'.', hmem, rfl⟩
    constructor
    · rintro (⟨rfl, rfl⟩ | hdot)
      · exact Or.inl (by simp)
      · exact Or.inr (by have := hfraction.mp hdot; omega)
    · rintro (hno | hdots)
      · cases fraction with
        | nil =>
          cases whole with
          | nil => exact Or.inl ⟨rfl, rfl⟩
          | cons d whole =>
            cases (hwhole d List.mem_cons_self).symm.trans (hno d (by simp))
        | cons d fraction => exact Or.inr ⟨d, List.mem_cons_self, hno d (by simp)⟩
      · exact Or.inr (hfraction.mpr (by omega))

end Characters

section Lexemes

/-- Every character of a lexeme could start one itself. -/
theorem IsLexeme.isLexical (h : IsLexeme k lexeme rest) : ∀ c ∈ lexeme, isLexical c = true := by
  cases h with
  | number hrun _ _ => exact fun c hc => isLexical_of_isNumeral (hrun c hc)
  | name hc hmore _ =>
    intro d hd
    rcases List.mem_cons.mp hd with rfl | hd
    · exact isLexical_of_isNameRest (by simp [isNameRest, hc])
    · exact isLexical_of_isNameRest (hmore d hd)
  | sign s _ => exact List.all_eq_true.mp (by cases s <;> decide)
  | step s => exact List.all_eq_true.mp (by cases s <;> decide)
  | mark hm =>
    have hall : (marks.all fun mark => Expr.isLexical mark.1) = true := by decide
    simpa using List.all_eq_true.mp hall _ hm

theorem IsLexeme.ne_nil (h : IsLexeme k lexeme rest) : lexeme ≠ [] := by
  cases h with
  | number _ _ hv =>
    rintro rfl
    cases hv
  | name _ _ _ => exact List.cons_ne_nil _ _
  | sign _ _ => exact List.cons_ne_nil _ _
  | step _ => exact List.cons_ne_nil _ _
  | mark _ => exact List.cons_ne_nil _ _

/-- The lexer takes a lexeme for what it is, and all of it. -/
theorem lexeme_of_isLexeme (h : IsLexeme k (c :: more) rest) (p : Nat) :
    Expr.lexeme p c (more ++ rest) = .ok (k, more.length) := by
  rw [Expr.lexeme.eq_def]
  cases h with
  | number hrun hr hv =>
    have hmore : ∀ d ∈ more, isNumeral d = true := fun d hd => hrun d (List.mem_cons_of_mem c hd)
    rw [if_pos (hrun c List.mem_cons_self)]
    simp only [Text.takeWhile_run hmore hr, hv]
    rfl
  | name hc hmore hr =>
    rw [if_neg (by simp [not_isNumeral_of_isNameStart hc]), if_pos hc]
    simp only [Text.takeWhile_run hmore hr]
    rfl
  | sign s hr =>
    cases s with
    | increment => exact if_neg hr
    | decrement => exact if_neg hr
  | step s => cases s <;> rfl
  | mark hm =>
    simp only [marks, List.mem_cons, Prod.mk.injEq, List.not_mem_nil, or_false] at hm
    rcases hm with ⟨rfl, rfl⟩ | ⟨rfl, rfl⟩ | ⟨rfl, rfl⟩ | ⟨rfl, rfl⟩ | ⟨rfl, rfl⟩ <;> rfl

/-- The lexer takes a lexeme as a token of its kind and goes on behind it. -/
theorem tokensFrom_of_isLexeme (h : IsLexeme k lexeme rest) (p : Nat) :
    tokensFrom p (lexeme ++ rest) = (tokensFrom (p + utf8Len lexeme) rest).map (⟨k, p⟩ :: ·) := by
  obtain ⟨c, more, rfl⟩ := List.exists_cons_of_ne_nil h.ne_nil
  have hb := not_isBlank_of_isLexical (h.isLexical c List.mem_cons_self)
  rw [utf8Len_of_isLexical h.isLexical, List.cons_append,
    tokensFrom_lexeme hb (lexeme_of_isLexeme h p), List.drop_left, List.length_cons,
    Nat.add_comm more.length 1, Nat.add_assoc]

theorem IsLexeme.lexes (h : IsLexeme k lexeme rest) : Lexes lexeme [k] rest :=
  fun p => ⟨p + utf8Len lexeme, [⟨k, p⟩], rfl, tokensFrom_of_isLexeme h p⟩

/-- A run of digits and dots that is no number is refused as a whole. -/
theorem lexeme_malformed (hrun : ∀ d ∈ c :: more, isNumeral d = true)
    (hr : EndsRun isNumeral rest) (hm : IsMalformed (c :: more)) (p : Nat) :
    Expr.lexeme p c (more ++ rest) =
      .error (.invalidNumber (String.ofList (c :: more)) p) := by
  have hmore : ∀ d ∈ more, isNumeral d = true := fun d hd => hrun d (List.mem_cons_of_mem c hd)
  rw [Expr.lexeme.eq_def, if_pos (hrun c List.mem_cons_self)]
  simp only [Text.takeWhile_run hmore hr, (read?_eq_none_iff hrun).mpr hm]
  rfl

/-- A character that starts no token is refused, whatever follows it. -/
theorem lexeme_foreign (h : isLexical c = false) (p : Nat) (cs : List Char) :
    Expr.lexeme p c cs = .error (.unexpectedChar c p) := by
  simp only [isLexical, Bool.or_eq_false_iff] at h
  obtain ⟨⟨hn, hs⟩, hmark⟩ := h
  have hne : ∀ d ∈ "+-*/(),".toList, c ≠ d := by
    rintro d hd rfl
    rw [isMark, List.contains_iff_mem.mpr hd] at hmark
    cases hmark
  rw [Expr.lexeme.eq_def, if_neg (by simp [hn]), if_neg (by simp [hs])]
  split
  · exact absurd rfl (hne '+' (by decide))
  · exact absurd rfl (hne '-' (by decide))
  · exact absurd rfl (hne '*' (by decide))
  · exact absurd rfl (hne '/' (by decide))
  · exact absurd rfl (hne '(' (by decide))
  · exact absurd rfl (hne ')' (by decide))
  · exact absurd rfl (hne ',' (by decide))
  · rfl

theorem lexeme_of_isFault (h : IsFault p cs err) : ∃ c more, cs = c :: more ∧
    Text.isBlank c = false ∧ Expr.lexeme p c more = .error err := by
  cases h with
  | @numeral run rest hne hrun hr hm =>
    obtain ⟨c, more, rfl⟩ := List.exists_cons_of_ne_nil hne
    have hc := isLexical_of_isNumeral (hrun c List.mem_cons_self)
    exact ⟨c, more ++ rest, rfl, not_isBlank_of_isLexical hc, lexeme_malformed hrun hr hm p⟩
  | char hb hl => exact ⟨_, _, rfl, hb, lexeme_foreign hl p _⟩

/-- The lexer stops at a fault and reports it. -/
theorem tokensFrom_of_isFault (h : IsFault p cs err) : tokensFrom p cs = .error err := by
  obtain ⟨c, more, rfl, hb, hl⟩ := lexeme_of_isFault h
  exact tokensFrom_of_lexeme_error hb hl

/-- A mark starts a lexeme, whatever follows it. -/
theorem lexeme_of_isMark (h : isMark c = true) (cs : List Char) :
    ∃ k more rest, cs = more ++ rest ∧ IsLexeme k (c :: more) rest := by
  have hsign : ∀ s : Step, c = s.sign →
      ∃ k more rest, cs = more ++ rest ∧ IsLexeme k (c :: more) rest := by
    rintro s rfl
    by_cases hs : cs.head? = some s.sign
    · obtain ⟨rest, rfl⟩ := List.head?_eq_some_iff.mp hs
      exact ⟨_, [s.sign], rest, rfl, .step s⟩
    · exact ⟨_, [], cs, rfl, .sign s hs⟩
  have hmark : c = '+' ∨ c = '-' ∨ c ∈ marks.map (·.1) := by
    simpa [isMark, marks] using h
  rcases hmark with rfl | rfl | hmem
  · exact hsign .increment rfl
  · exact hsign .decrement rfl
  · obtain ⟨⟨_, k⟩, hm, rfl⟩ := List.mem_map.mp hmem
    exact ⟨k, [], cs, rfl, .mark hm⟩

/-- A text is a run of characters of one kind and a rest that does not go on with it. -/
theorem exists_run (kind : Char → Bool) (cs : List Char) :
    ∃ run rest, cs = run ++ rest ∧ (∀ c ∈ run, kind c = true) ∧ EndsRun kind rest := by
  refine ⟨cs.takeWhile kind, cs.dropWhile kind, List.takeWhile_append_dropWhile.symm,
    fun c hc => List.mem_takeWhile_imp hc, ?_⟩
  intro c hc
  have hfirst := List.head?_dropWhile_not kind cs
  rwa [hc] at hfirst

/-- At a character that is no blank there is a lexeme or a fault. -/
theorem lexeme_or_fault (hb : Text.isBlank c = false) (cs : List Char) :
    (∃ k more rest, cs = more ++ rest ∧ IsLexeme k (c :: more) rest) ∨
      ∀ p, ∃ err, IsFault p (c :: cs) err := by
  by_cases hl : isLexical c = true
  · simp only [isLexical, Bool.or_eq_true] at hl
    rcases hl with (hn | hs) | hm
    · obtain ⟨more, rest, rfl, hmore, hr⟩ := exists_run isNumeral cs
      have hrun : ∀ d ∈ c :: more, isNumeral d = true := List.forall_mem_cons.mpr ⟨hn, hmore⟩
      cases hv : Decimal.read? (c :: more) with
      | some v => exact Or.inl ⟨_, more, rest, rfl, .number hrun hr hv⟩
      | none =>
        have hmalformed := (read?_eq_none_iff hrun).mp hv
        exact Or.inr fun p => ⟨_, .numeral (List.cons_ne_nil c more) hrun hr hmalformed⟩
    · obtain ⟨more, rest, rfl, hmore, hr⟩ := exists_run isNameRest cs
      exact Or.inl ⟨_, more, rest, rfl, .name hs hmore hr⟩
    · exact Or.inl (lexeme_of_isMark hm cs)
  · exact Or.inr fun p => ⟨_, .char hb (Bool.eq_false_of_not_eq_true hl)⟩

end Lexemes

end SparkTrail.Expr
