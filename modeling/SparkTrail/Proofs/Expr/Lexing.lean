import SparkTrail.Expr.Lexer

/-!
# Lexemes one after another

`Lexes cs ks rest` says that the text `cs`, standing before `rest`, is cut into tokens of the kinds
`ks`, wherever the text starts and whatever becomes of `rest`. What the lexer does at a blank and at
a lexeme is stated beside it.
-/
namespace SparkTrail.Expr

variable {cs ds rest : List Char} {ks ls : List TokenKind} {c : Char} {k : TokenKind}

/-- The tokens of `cs ++ rest` are tokens of the kinds `ks` before the tokens of `rest`. -/
def Lexes (cs : List Char) (ks : List TokenKind) (rest : List Char) : Prop :=
  ∀ p, ∃ q ts, ts.map (·.kind) = ks ∧
    tokensFrom p (cs ++ rest) = (tokensFrom q rest).map (ts ++ ·)

theorem scan_nil (p : Nat) : scan p [] = .ok ([], p) := by
  rw [scan.eq_def]
  rfl

theorem scan_cons (p : Nat) (c : Char) (cs : List Char) : scan p (c :: cs) =
    if Text.isBlank c then scan (p + c.utf8Size) cs
    else lexeme p c cs >>= fun r => scan (p + 1 + r.2) (cs.drop r.2) >>= fun found =>
      return (⟨r.1, p⟩ :: found.1, found.2) := by
  rw [scan.eq_def]

@[simp] theorem tokensFrom_nil (p : Nat) : tokensFrom p [] = .ok [] := by
  rw [tokensFrom, scan_nil]
  rfl

/-- What the lexer does at one character: a blank is passed over, and a lexeme is put in front of
the tokens of the rest. -/
@[simp] theorem tokensFrom_cons (p : Nat) (c : Char) (cs : List Char) : tokensFrom p (c :: cs) =
    if Text.isBlank c then tokensFrom (p + c.utf8Size) cs
    else lexeme p c cs >>= fun r =>
      (tokensFrom (p + 1 + r.2) (cs.drop r.2)).map (⟨r.1, p⟩ :: ·) := by
  rw [tokensFrom, scan_cons]
  split
  · rfl
  · cases lexeme p c cs with
    | error err => rfl
    | ok r =>
      show (scan (p + 1 + r.2) (cs.drop r.2) >>= _).map Prod.fst =
        ((scan (p + 1 + r.2) (cs.drop r.2)).map Prod.fst).map _
      cases scan (p + 1 + r.2) (cs.drop r.2) <;> rfl

theorem map_nil_append (x : Except Error (List Token)) : x.map ([] ++ ·) = x := by
  cases x <;> rfl

theorem map_append_map (ts us : List Token) (x : Except Error (List Token)) :
    (x.map (us ++ ·)).map (ts ++ ·) = x.map (ts ++ us ++ ·) := by
  cases x with
  | error err => rfl
  | ok vs => exact congrArg Except.ok (List.append_assoc ts us vs).symm

theorem Lexes.nil : Lexes [] [] rest :=
  fun p => ⟨p, [], rfl, (map_nil_append _).symm⟩

/-- Texts that are cut up whatever follows them are cut up one behind the other. -/
theorem Lexes.append (h : Lexes cs ks (ds ++ rest)) (h' : Lexes ds ls rest) :
    Lexes (cs ++ ds) (ks ++ ls) rest := by
  intro p
  obtain ⟨q, ts, hts, heq⟩ := h p
  obtain ⟨q', ts', hts', heq'⟩ := h' q
  refine ⟨q', ts ++ ts', by rw [List.map_append, hts, hts'], ?_⟩
  rw [List.append_assoc, heq, heq', map_append_map]

/-- A whole text is cut into tokens of its kinds. -/
theorem Lexes.tokens_eq (h : Lexes cs ks []) :
    ∃ ts, tokens cs = .ok ts ∧ ts.map (·.kind) = ks := by
  obtain ⟨q, ts, hts, heq⟩ := h 0
  rw [List.append_nil, tokensFrom_nil] at heq
  exact ⟨ts ++ [], heq, by rw [List.append_nil, hts]⟩

theorem tokensFrom_blank (h : Text.isBlank c = true) (p : Nat) (cs : List Char) :
    tokensFrom p (c :: cs) = tokensFrom (p + c.utf8Size) cs := by
  rw [tokensFrom_cons, if_pos h]

theorem tokensFrom_lexeme {p n : Nat} (hb : Text.isBlank c = false)
    (h : lexeme p c cs = .ok (k, n)) :
    tokensFrom p (c :: cs) = (tokensFrom (p + 1 + n) (cs.drop n)).map (⟨k, p⟩ :: ·) := by
  rw [tokensFrom_cons, if_neg (by simp [hb]), h]
  rfl

theorem lexes_blank (h : Text.isBlank c = true) : Lexes [c] [] rest := by
  intro p
  have hnil : Lexes [] [] rest := .nil
  obtain ⟨q, ts, hts, heq⟩ := hnil (p + c.utf8Size)
  exact ⟨q, ts, hts, (tokensFrom_blank h p rest).trans heq⟩

def marks : List (Char × TokenKind) :=
  [('*', .star), ('/', .slash), ('(', .opening), (')', .closing), (',', .comma)]

end SparkTrail.Expr
