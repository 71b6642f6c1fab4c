import SparkTrail.Proofs.Expr.Failures
import SparkTrail.Proofs.Expr.Pieces

/-!
# Where errors point

A position in an error is that of a token or of a fault of the lexer, and so the byte where some
character of the text starts. For a parenthesis that is not closed, what follows it in the text is
balanced: of the parentheses still open at the end of the text it is the last. That can be counted
on the characters, because a parenthesis is always a token by itself.
-/
namespace SparkTrail.Expr

open String (utf8Len)

def Error.position? : Error → Option Nat
  | .invalidNumber _ position => some position
  | .unexpectedChar _ position => some position
  | .unexpectedToken _ position => some position
  | .unclosedParenthesis position => some position
  | .empty | .unexpectedEnd | .invalidStepTarget _ | .unknownName _ | .notCallable _
  | .missingCall _ => none

/-- The bytes of the parentheses that no later one closes, the last one first, in a text that begins
at the byte `position` where those of `stack` are open. -/
def unmatched (position : Nat) (stack : List Nat) : List Char → List Nat
  | [] => stack
  | '(' :: cs => unmatched (position + 1) (position :: stack) cs
  | ')' :: cs => unmatched (position + 1) stack.tail cs
  | c :: cs => unmatched (position + c.utf8Size) stack cs

/-- What the error names is in the text where `after` begins, which is the byte `position`: there is
the literal, or the character; or there is a token, which but for numbers is shown as it is written;
or there is a parenthesis, the last one without a partner. -/
inductive Names (text : List Char) (position : Nat) : (after : List Char) → Error → Prop
  | number {literal rest : List Char} : literal ≠ [] →
      Names text position (literal ++ rest) (.invalidNumber (String.ofList literal) position)
  | char {c : Char} {rest : List Char} :
      Names text position (c :: rest) (.unexpectedChar c position)
  | token {k : TokenKind} {ts : List Token} {lexeme rest : List Char} : tokens text = .ok ts →
      ⟨k, position⟩ ∈ ts → IsLexeme k lexeme rest →
      ((∀ v, k ≠ .number v) → k.text = String.ofList lexeme) →
      Names text position (lexeme ++ rest) (.unexpectedToken k position)
  | parenthesis {rest : List Char} : (unmatched 0 [] text).head? = some position →
      Names text position ('(' :: rest) (.unclosedParenthesis position)

variable {c : Char} {cs lexeme rest text after : List Char} {k : TokenKind} {pieces : List Piece}
  {ts : List Token} {p : Nat} {err : Error}

section Unmatched

theorem unmatched_cons (ho : c ≠ '(') (hc : c ≠ ')') (p : Nat) (stack : List Nat)
    (cs : List Char) : unmatched p stack (c :: cs) = unmatched (p + c.utf8Size) stack cs := by
  rw [unmatched]
  · exact ho
  · exact hc

theorem unmatched_append (h : ∀ c ∈ cs, c ≠ '(' ∧ c ≠ ')') (p : Nat) (stack : List Nat)
    (more : List Char) :
    unmatched p stack (cs ++ more) = unmatched (p + utf8Len cs) stack more := by
  induction cs generalizing p with
  | nil => rfl
  | cons c cs ih =>
    obtain ⟨ho, hc⟩ := h c List.mem_cons_self
    rw [List.cons_append, unmatched_cons ho hc, ih fun d hd => h d (List.mem_cons_of_mem c hd),
      String.utf8Len_cons, Nat.add_assoc, Nat.add_comm c.utf8Size]

/-- What parentheses are not is no parenthesis. -/
theorem ne_parenthesis {kind : Char → Bool} (ho : kind '(' = false) (hc : kind ')' = false)
    (h : kind c = true) : c ≠ '(' ∧ c ≠ ')' := by
  constructor
  · rintro rfl
    cases ho.symm.trans h
  · rintro rfl
    cases hc.symm.trans h

theorem AllBlank.ne_parenthesis (h : AllBlank cs) : ∀ c ∈ cs, c ≠ '(' ∧ c ≠ ')' :=
  fun c hc => Expr.ne_parenthesis (by decide) (by decide) (h c hc)

/-- A lexeme is a parenthesis, or there is none in it. -/
theorem IsLexeme.parentheses (h : IsLexeme k lexeme rest) :
    k = .opening ∧ lexeme = ['('] ∨ k = .closing ∧ lexeme = [')'] ∨
      k ≠ .opening ∧ k ≠ .closing ∧ ∀ c ∈ lexeme, c ≠ '(' ∧ c ≠ ')' := by
  cases h with
  | number hrun _ _ =>
    refine .inr (.inr ⟨by simp, by simp, fun c hc => ?_⟩)
    exact ne_parenthesis (by decide) (by decide) (hrun c hc)
  | name hc hmore _ =>
    refine .inr (.inr ⟨by simp, by simp, List.forall_mem_cons.mpr ⟨?_, fun d hd => ?_⟩⟩)
    · exact ne_parenthesis (by decide) (by decide) hc
    · exact ne_parenthesis (by decide) (by decide) (hmore d hd)
  | sign s _ => cases s <;> simp [Step.single, Step.sign]
  | step s => cases s <;> simp [Step.sign]
  | mark hm =>
    simp only [marks, List.mem_cons, Prod.mk.injEq, List.not_mem_nil, or_false] at hm
    rcases hm with ⟨rfl, rfl⟩ | ⟨rfl, rfl⟩ | ⟨rfl, rfl⟩ | ⟨rfl, rfl⟩ | ⟨rfl, rfl⟩ <;> simp

/-- A lexeme opens or closes what its token does. -/
theorem unmatched_of_isLexeme (h : IsLexeme k lexeme rest) (p : Nat) (stack : List Nat)
    (cs : List Char) :
    unmatched p stack (lexeme ++ cs) =
      unmatched (p + utf8Len lexeme) (openAfter stack [⟨k, p⟩]) cs := by
  rcases h.parentheses with ⟨rfl, rfl⟩ | ⟨rfl, rfl⟩ | ⟨ho, hc, hplain⟩
  · rfl
  · rfl
  · rw [openAfter_cons ho hc, unmatched_append hplain]
    rfl

/-- The parentheses that are open in a text are those that are open among its tokens. -/
theorem unmatched_of_cuts (h : Cuts pieces rest) (p : Nat) (stack : List Nat) :
    unmatched p stack (Piece.text pieces ++ rest) =
      unmatched (p + utf8Len (Piece.text pieces)) (openAfter stack (Piece.tokens p pieces))
        rest := by
  induction h generalizing p stack with
  | nil => rfl
  | @cons piece more rest hgap hlexeme _ ih =>
    rw [Piece.text, List.append_assoc, List.append_assoc, unmatched_append hgap.ne_parenthesis,
      unmatched_of_isLexeme hlexeme, ih, String.utf8Len_append, String.utf8Len_append,
      Piece.tokens, ← Nat.add_assoc, ← Nat.add_assoc]
    rfl

/-- Counting the parentheses of a text is counting those among its tokens. -/
theorem unmatched_eq_openAfter (h : tokens text = .ok ts) :
    unmatched 0 [] text = openAfter [] ts := by
  obtain ⟨pieces, last, rfl, hcuts, hlast, rfl⟩ := tokensFrom_eq_ok_iff.mp h
  have hend := unmatched_append hlast.ne_parenthesis (0 + utf8Len (Piece.text pieces))
    (openAfter [] (Piece.tokens 0 pieces)) []
  rw [List.append_nil] at hend
  rw [unmatched_of_cuts hcuts, hend]
  rfl

end Unmatched

section Tokens

/-- All tokens but numbers are shown as they are written. -/
theorem IsLexeme.text_eq (h : IsLexeme k lexeme rest) (hk : ∀ v, k ≠ .number v) :
    k.text = String.ofList lexeme := by
  cases h with
  | number _ _ _ => exact absurd rfl (hk _)
  | name _ _ _ => rfl
  | sign s _ => cases s <;> rfl
  | step s => cases s <;> rfl
  | mark hm =>
    simp only [marks, List.mem_cons, Prod.mk.injEq, List.not_mem_nil, or_false] at hm
    rcases hm with ⟨rfl, rfl⟩ | ⟨rfl, rfl⟩ | ⟨rfl, rfl⟩ | ⟨rfl, rfl⟩ | ⟨rfl, rfl⟩ <;> rfl

theorem eq_of_isLexeme_opening (h : IsLexeme .opening lexeme rest) : lexeme = ['('] := by
  have htext := h.text_eq fun _ => by simp
  exact (String.ofList_injective htext).symm

/-- A token is in the text where its position says. -/
theorem exists_place_of_mem (h : tokens text = .ok ts) (ht : ⟨k, p⟩ ∈ ts) :
    ∃ before lexeme after, text = before ++ (lexeme ++ after) ∧ utf8Len before = p ∧
      IsLexeme k lexeme after := by
  obtain ⟨pieces, last, rfl, hcuts, -, rfl⟩ := tokensFrom_eq_ok_iff.mp h
  obtain ⟨before, lexeme, after, htext, hposition, hl⟩ := hcuts.exists_place ht
  exact ⟨before, lexeme, after, htext, (hposition.trans (Nat.zero_add _)).symm, hl⟩

/-- The parenthesis behind which the tokens are balanced is the last one that stays open. -/
theorem head?_openAfter_of_suffix {inner : List Token} (h : ⟨.opening, p⟩ :: inner <:+ ts)
    (hb : Balanced (inner.map (·.kind))) : (openAfter [] ts).head? = some p := by
  obtain ⟨front, rfl⟩ := h
  rw [openAfter_append, openAfter_opening, openAfter_of_balanced hb _ inner rfl]
  rfl

end Tokens

theorem Names.ne_nil (h : Names text p after err) : after ≠ [] := by
  cases h with
  | number hne => exact List.append_ne_nil_of_left_ne_nil hne _
  | char => exact List.cons_ne_nil _ _
  | token _ _ hl _ => exact List.append_ne_nil_of_left_ne_nil hl.ne_nil _
  | parenthesis _ => exact List.cons_ne_nil _ _

theorem names_of_isFault (h : IsFault p rest err) (text : List Char) : Names text p rest err := by
  cases h with
  | numeral hne _ _ _ => exact .number hne
  | char _ _ => exact .char

theorem position?_of_isFault (h : IsFault p rest err) : err.position? = some p := by
  cases h <;> rfl

/-- A fault of the grammar that tells a position names what is there. -/
theorem names_of_fault (ht : tokens text = .ok ts) (h : Parser.Fault ts err)
    (hp : err.position? = some p) :
    ∃ before after, text = before ++ after ∧ utf8Len before = p ∧ Names text p after err := by
  cases h with
  | @unexpected mid hmid =>
    rcases mid with _ | ⟨⟨k, q⟩, tail⟩
    · cases hp
    · obtain rfl : q = p := Option.some.inj hp
      have hmem : ⟨k, q⟩ ∈ ts := hmid.mem List.mem_cons_self
      obtain ⟨before, lexeme, after, htext, hbefore, hl⟩ := exists_place_of_mem ht hmem
      exact ⟨before, lexeme ++ after, htext, hbefore, .token ht hmem hl hl.text_eq⟩
  | @unclosed q inner hsuffix hb =>
    obtain rfl : q = p := Option.some.inj hp
    have hmem : ⟨.opening, q⟩ ∈ ts := hsuffix.mem List.mem_cons_self
    obtain ⟨before, lexeme, after, htext, hbefore, hl⟩ := exists_place_of_mem ht hmem
    rw [eq_of_isLexeme_opening hl] at htext
    refine ⟨before, '(' :: after, htext, hbefore, .parenthesis ?_⟩
    rw [unmatched_eq_openAfter ht]
    exact head?_openAfter_of_suffix hsuffix hb
  | target _ => cases hp
  | unknown _ => cases hp
  | notCallable _ => cases hp
  | missingCall _ => cases hp

/-- The position in an error is a byte of the text where a character starts, and there is what the
error names. -/
theorem error_position {text : List Char} {err : Error} {p : Nat} (h : parse text = .error err)
    (hp : err.position? = some p) :
    ∃ before after, text = before ++ after ∧ utf8Len before = p ∧ p < utf8Len text ∧
      Names text p after err := by
  have hnames : ∃ before after, text = before ++ after ∧ utf8Len before = p ∧
      Names text p after err := by
    rcases parse_eq_error h with hlexer | ⟨ts, ht, hf⟩
    · obtain ⟨pieces, gap, rest, htext, -, -, hfault⟩ := tokensFrom_eq_error_iff.mp hlexer
      obtain rfl := Option.some.inj ((position?_of_isFault hfault).symm.trans hp)
      refine ⟨Piece.text pieces ++ gap, rest, ?_, (Nat.zero_add _).symm,
        names_of_isFault hfault text⟩
      rw [htext, List.append_assoc]
    · exact names_of_fault ht hf hp
  obtain ⟨before, after, rfl, rfl, hn⟩ := hnames
  refine ⟨before, after, rfl, rfl, ?_, hn⟩
  have hpositive : 0 < utf8Len after := Nat.pos_of_ne_zero (mt String.utf8Len_eq_zero.mp hn.ne_nil)
  rw [String.utf8Len_append]
  omega

/-- The parenthesis behind a blank of three bytes stays open, not the one in it that is closed. -/
theorem error_position_unclosed :
    parse "\u2003(x,(x)".toList = .error (.unclosedParenthesis 3) ∧
    (unmatched 0 [] "\u2003(x,(x)".toList).head? = some 3 ∧
    ∃ before after, "\u2003(x,(x)".toList = before ++ after ∧ utf8Len before = 3 ∧
      3 < utf8Len "\u2003(x,(x)".toList ∧
      Names "\u2003(x,(x)".toList 3 after (.unclosedParenthesis 3) := by
  have ht : tokens "\u2003(x,(x)".toList = .ok [⟨.opening, 3⟩, ⟨.name "x", 4⟩, ⟨.comma, 5⟩,
      ⟨.opening, 6⟩, ⟨.name "x", 7⟩, ⟨.closing, 8⟩] := by
    simp [tokens, lexeme, isNumeral, isNameStart, isNameRest, Text.isBlank]
    rfl
  have hx : Parser.meaning? "x" = some (.value .var) := rfl
  have hparse : parse "\u2003(x,(x)".toList = .error (.unclosedParenthesis 3) := by
    rw [parse, ht]
    show (Parser.sequence _ >>= _) = _
    simp [Parser.sequence, Parser.sum, Parser.product, Parser.signed, Parser.primary, hx,
      Parser.steps, Parser.productRest, Parser.sumRest, Parser.sequenceRest, Parser.closing, bind,
      Except.bind, pure, Except.pure, throw, throwThe, MonadExceptOf.throw, Text.Reading.widen]
  exact ⟨hparse, by decide, error_position hparse rfl⟩

end SparkTrail.Expr
