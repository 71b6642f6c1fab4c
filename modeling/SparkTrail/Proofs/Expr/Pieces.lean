import SparkTrail.Proofs.Expr.Lexeme

/-!
# A text cut into pieces

A piece is a lexeme with the blanks before it. Every text is pieces one after the other, then
blanks, and then its end or a fault, and this alone decides what the lexer makes of it: in the one
case the tokens of the pieces, each at the byte where its lexeme starts, and in the other case the
fault.
-/
namespace SparkTrail.Expr

open String (utf8Len)
open Text (EndsRun)

/-- A lexeme with its kind and the characters between it and the lexeme before it. -/
structure Piece where
  gap : List Char
  lexeme : List Char
  kind : TokenKind

def Piece.text : List Piece → List Char
  | [] => []
  | piece :: more => piece.gap ++ (piece.lexeme ++ text more)

/-- The tokens of pieces the first of which begins at the byte `position`. -/
def Piece.tokens (position : Nat) : List Piece → List Token
  | [] => []
  | piece :: more =>
    ⟨piece.kind, position + utf8Len piece.gap⟩ ::
      tokens (position + utf8Len piece.gap + utf8Len piece.lexeme) more

def AllBlank (cs : List Char) : Prop :=
  ∀ c ∈ cs, Text.isBlank c = true

/-- The pieces cut up the text in front of `rest`: their gaps are blank, and each lexeme is a token
of its kind before what follows it. -/
inductive Cuts : List Piece → List Char → Prop
  | nil {rest : List Char} : Cuts [] rest
  | cons {piece : Piece} {more : List Piece} {rest : List Char} : AllBlank piece.gap →
      IsLexeme piece.kind piece.lexeme (Piece.text more ++ rest) → Cuts more rest →
      Cuts (piece :: more) rest

variable {cs gap rest : List Char} {pieces : List Piece} {ts : List Token} {t : Token} {p : Nat}
  {err : Error}

/-- Blanks only move the position. -/
theorem tokensFrom_of_allBlank (h : AllBlank gap) (p : Nat) (rest : List Char) :
    tokensFrom p (gap ++ rest) = tokensFrom (p + utf8Len gap) rest := by
  induction gap generalizing p with
  | nil => rfl
  | cons c gap ih =>
    rw [List.cons_append, tokensFrom_blank (h c List.mem_cons_self),
      ih fun d hd => h d (List.mem_cons_of_mem c hd), String.utf8Len_cons, Nat.add_assoc,
      Nat.add_comm c.utf8Size]

/-- Pieces give their tokens, and the rest is cut up from the byte behind them. -/
theorem tokensFrom_of_cuts (h : Cuts pieces rest) (p : Nat) :
    tokensFrom p (Piece.text pieces ++ rest) =
      (tokensFrom (p + utf8Len (Piece.text pieces)) rest).map (Piece.tokens p pieces ++ ·) := by
  induction h generalizing p with
  | nil => exact (map_nil_append _).symm
  | @cons piece more rest hgap hlexeme _ ih =>
    rw [Piece.text, List.append_assoc, List.append_assoc, tokensFrom_of_allBlank hgap,
      tokensFrom_of_isLexeme hlexeme, ih, String.utf8Len_append, String.utf8Len_append,
      ← Nat.add_assoc, ← Nat.add_assoc]
    exact map_append_map [⟨piece.kind, p + utf8Len piece.gap⟩] _ _

/-- What is left behind the pieces and the blanks decides whether there are tokens. -/
theorem tokensFrom_of_cuts_gap (h : Cuts pieces (gap ++ rest)) (hgap : AllBlank gap) (p : Nat) :
    tokensFrom p (Piece.text pieces ++ (gap ++ rest)) =
      (tokensFrom (p + utf8Len (Piece.text pieces ++ gap)) rest).map
        (Piece.tokens p pieces ++ ·) := by
  rw [tokensFrom_of_cuts h, tokensFrom_of_allBlank hgap, String.utf8Len_append, Nat.add_assoc]

/-- Every text can be cut up as far as it goes, to its end or to a fault. -/
theorem exists_cuts (cs : List Char) : ∃ pieces gap rest, cs = Piece.text pieces ++ (gap ++ rest) ∧
    Cuts pieces (gap ++ rest) ∧ AllBlank gap ∧ (rest = [] ∨ ∀ p, ∃ err, IsFault p rest err) := by
  induction hn : cs.length using Nat.strongRecOn generalizing cs with
  | ind n ih =>
    subst hn
    obtain ⟨gap, rest, rfl, hgap, hr⟩ := exists_run Text.isBlank cs
    cases rest with
    | nil => exact ⟨[], gap, [], rfl, .nil, hgap, Or.inl rfl⟩
    | cons c cs =>
      rcases lexeme_or_fault (hr c rfl) cs with ⟨k, more, rest, rfl, hlexeme⟩ | hfault
      · have hshorter : rest.length < (gap ++ c :: (more ++ rest)).length := by
          simp only [List.length_append, List.length_cons]
          omega
        obtain ⟨pieces, gap', rest', rfl, hcuts, hgap', hend⟩ := ih _ hshorter rest rfl
        refine ⟨⟨gap, c :: more, k⟩ :: pieces, gap', rest', ?_, .cons hgap hlexeme hcuts, hgap',
          hend⟩
        simp [Piece.text]
      · exact ⟨[], gap, c :: cs, rfl, .nil, hgap, Or.inr hfault⟩

theorem tokensFrom_of_cuts_end (h : Cuts pieces gap) (hgap : AllBlank gap) (p : Nat) :
    tokensFrom p (Piece.text pieces ++ gap) = .ok (Piece.tokens p pieces) := by
  have hcuts : Cuts pieces (gap ++ []) := by rwa [List.append_nil]
  have htokens := tokensFrom_of_cuts_gap hcuts hgap p
  rw [List.append_nil, tokensFrom_nil] at htokens
  rw [htokens]
  exact congrArg Except.ok (List.append_nil _)

/-- The tokens of a text are those of pieces with nothing but blanks behind them. -/
theorem tokensFrom_eq_ok_iff : tokensFrom p cs = .ok ts ↔ ∃ pieces last,
    cs = Piece.text pieces ++ last ∧ Cuts pieces last ∧ AllBlank last ∧
      ts = Piece.tokens p pieces := by
  constructor
  · intro h
    obtain ⟨pieces, gap, rest, rfl, hcuts, hgap, rfl | hfault⟩ := exists_cuts cs
    · rw [List.append_nil] at hcuts h ⊢
      have hok := tokensFrom_of_cuts_end hcuts hgap p
      exact ⟨pieces, gap, rfl, hcuts, hgap, Except.ok.inj (h.symm.trans hok)⟩
    · obtain ⟨err, herr⟩ := hfault (p + utf8Len (Piece.text pieces ++ gap))
      rw [tokensFrom_of_cuts_gap hcuts hgap, tokensFrom_of_isFault herr] at h
      cases h
  · rintro ⟨pieces, last, rfl, hcuts, hlast, rfl⟩
    exact tokensFrom_of_cuts_end hcuts hlast p

/-- A text without tokens has a fault behind pieces and blanks. -/
theorem tokensFrom_eq_error_iff : tokensFrom p cs = .error err ↔ ∃ pieces gap rest,
    cs = Piece.text pieces ++ (gap ++ rest) ∧ Cuts pieces (gap ++ rest) ∧ AllBlank gap ∧
      IsFault (p + utf8Len (Piece.text pieces ++ gap)) rest err := by
  constructor
  · intro h
    obtain ⟨pieces, gap, rest, rfl, hcuts, hgap, rfl | hfault⟩ := exists_cuts cs
    · rw [List.append_nil] at hcuts h
      cases h.symm.trans (tokensFrom_of_cuts_end hcuts hgap p)
    · obtain ⟨err', herr⟩ := hfault (p + utf8Len (Piece.text pieces ++ gap))
      have herror := tokensFrom_of_cuts_gap hcuts hgap p
      rw [tokensFrom_of_isFault herr] at herror
      cases h.symm.trans herror
      exact ⟨pieces, gap, rest, rfl, hcuts, hgap, herr⟩
  · rintro ⟨pieces, gap, rest, rfl, hcuts, hgap, herr⟩
    rw [tokensFrom_of_cuts_gap hcuts hgap, tokensFrom_of_isFault herr]
    rfl

/-- Where every character that is no blank can start a token, only numerals are faulty. -/
theorem tokensFrom_eq_error (hcs : ∀ c ∈ cs, Text.isBlank c = false → isLexical c = true)
    (h : tokensFrom p cs = .error err) : ∃ literal q, err = .invalidNumber literal q := by
  obtain ⟨pieces, gap, rest, rfl, -, -, hfault⟩ := tokensFrom_eq_error_iff.mp h
  cases hfault with
  | numeral _ _ _ _ => exact ⟨_, _, rfl⟩
  | char hb hl => cases hl.symm.trans (hcs _ (by simp) hb)

section Places

/-- Every token stands at the byte where its lexeme starts. -/
theorem Cuts.exists_place (h : Cuts pieces rest) (ht : t ∈ Piece.tokens p pieces) :
    ∃ before lexeme after, Piece.text pieces ++ rest = before ++ (lexeme ++ after) ∧
      t.position = p + utf8Len before ∧ IsLexeme t.kind lexeme after := by
  induction h generalizing p with
  | nil => cases ht
  | @cons piece more rest _ hlexeme _ ih =>
    rw [Piece.tokens, List.mem_cons] at ht
    rcases ht with rfl | ht
    · refine ⟨piece.gap, piece.lexeme, Piece.text more ++ rest, ?_, rfl, hlexeme⟩
      rw [Piece.text, List.append_assoc, List.append_assoc]
    · obtain ⟨before, lexeme, after, htext, hposition, hl⟩ := ih ht
      refine ⟨piece.gap ++ (piece.lexeme ++ before), lexeme, after, ?_, ?_, hl⟩
      · rw [Piece.text, List.append_assoc, List.append_assoc, htext]
        simp only [List.append_assoc]
      · rw [hposition, String.utf8Len_append, String.utf8Len_append]
        omega

/-- A token stands within the text of its pieces. -/
theorem Cuts.bounds (h : Cuts pieces rest) (ht : t ∈ Piece.tokens p pieces) :
    p ≤ t.position ∧ t.position < p + utf8Len (Piece.text pieces) := by
  induction h generalizing p with
  | nil => cases ht
  | @cons piece more rest _ hlexeme _ ih =>
    have hpositive : 0 < utf8Len piece.lexeme :=
      Nat.pos_of_ne_zero (mt String.utf8Len_eq_zero.mp hlexeme.ne_nil)
    rw [Piece.text, String.utf8Len_append, String.utf8Len_append]
    rw [Piece.tokens, List.mem_cons] at ht
    rcases ht with rfl | ht
    · exact ⟨Nat.le_add_right _ _, by simp only; omega⟩
    · have hbounds := ih ht
      omega

/-- Each token stands behind the one before it, because no lexeme is empty. -/
theorem Cuts.pairwise (h : Cuts pieces rest) (p : Nat) :
    (Piece.tokens p pieces).Pairwise (·.position < ·.position) := by
  induction h generalizing p with
  | nil => exact List.Pairwise.nil
  | @cons piece more rest _ hlexeme hcuts ih =>
    have hpositive : 0 < utf8Len piece.lexeme :=
      Nat.pos_of_ne_zero (mt String.utf8Len_eq_zero.mp hlexeme.ne_nil)
    refine List.Pairwise.cons ?_ (ih _)
    intro t ht
    have hbounds := hcuts.bounds ht
    show p + utf8Len piece.gap < t.position
    omega

end Places

end SparkTrail.Expr
