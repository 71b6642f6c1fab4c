import SparkTrail.Proofs.Expr.Completeness
import SparkTrail.Proofs.Expr.Lexing
import SparkTrail.Proofs.Expr.Soundness

/-!
# Parsing decides the grammar

A text that can be cut into tokens is parsed to a tree exactly where the grammar derives its tokens
with that tree, and no list of tokens has two trees. That the grammar is unambiguous is a
consequence of reading: whatever it derives is what the readers give, and they give one value.
-/
namespace SparkTrail.Expr

open SparkTrail.Expr.Grammar SparkTrail.Expr.Parser

variable {text : List Char} {ts : List Token} {e e' : Expr}

/-- A text is parsed only to trees that the grammar derives from its tokens. -/
theorem isSequence_of_parse (ht : tokens text = .ok ts) (h : parse text = .ok e) :
    IsSequence (ts.map (·.kind)) e := by
  obtain ⟨ts', ht', hread⟩ := parse_eq_ok.mp h
  obtain rfl := Except.ok.inj (ht.symm.trans ht')
  obtain ⟨used, hts, hused⟩ := used_sequence hread
  rw [List.append_nil] at hts
  rw [hts]
  exact hused

theorem parse_of_isSequence (ht : tokens text = .ok ts) (h : IsSequence (ts.map (·.kind)) e) :
    parse text = .ok e := by
  have hread := reads_of_isSequence h rfl stops_nil
  rw [List.append_nil] at hread
  exact parse_eq_ok.mpr ⟨ts, ht, hread⟩

/-- The readers look at kinds only, so one list of tokens of these kinds is enough. -/
theorem isSequence_unique {us : List TokenKind} (h : IsSequence us e) (h' : IsSequence us e') :
    e = e' := by
  have hus : (us.map fun k => (⟨k, 0⟩ : Token)).map (·.kind) = us := by
    rw [List.map_map]
    exact List.map_id us
  have hread := reads_of_isSequence h hus stops_nil
  have hread' := reads_of_isSequence h' hus stops_nil
  exact hread.unique hread'

/-- A text of these tokens has the trees of the grammar and no others, and it has at most one. -/
theorem parse_iff_isSequence :
    (∀ (text : List Char) (ts : List Token), tokens text = .ok ts →
      ∀ e, parse text = .ok e ↔ IsSequence (ts.map (·.kind)) e) ∧
    ∀ (us : List TokenKind) (e e' : Expr), IsSequence us e → IsSequence us e' → e = e' := by
  refine ⟨?_, ?_⟩
  · intro text ts ht e
    exact ⟨isSequence_of_parse ht, parse_of_isSequence ht⟩
  · intro us e e' h h'
    exact isSequence_unique h h'

/-- Subtraction associates to the left, and the step belongs to the last operand alone. -/
theorem parse_iff_isSequence_differences :
    ∃ ts, tokens "x-x-PI*x++".toList = .ok ts ∧
      parse "x-x-PI*x++".toList = .ok (.binary .sub (.binary .sub .var .var)
        (.binary .mul (.constant .pi) (.update .increment .after))) ∧
      ∀ e, IsSequence (ts.map (·.kind)) e → e = .binary .sub (.binary .sub .var .var)
        (.binary .mul (.constant .pi) (.update .increment .after)) := by
  have ht : tokens "x-x-PI*x++".toList = .ok [⟨.name "x", 0⟩, ⟨.minus, 1⟩, ⟨.name "x", 2⟩,
      ⟨.minus, 3⟩, ⟨.name "PI", 4⟩, ⟨.star, 6⟩, ⟨.name "x", 7⟩, ⟨.step .increment, 8⟩] := by
    simp [tokens, lexeme, isNumeral, isNameStart, isNameRest, Text.isBlank]
    rfl
  have hx : IsSigned [.name "x"] .var := .stepped (.plain .var)
  have hpi : IsSigned [.name "PI"] (.constant .pi) := .stepped (.plain (.constant rfl))
  have hstep : IsSigned [.name "x", .step .increment] (.update .increment .after) :=
    .stepped (.step .increment .var)
  have hd := IsSequence.single (.mk (.mk hx .nil)
    (.sub (.mk hx .nil) (.sub (.mk hpi (.mul hstep .nil)) .nil)))
  refine ⟨_, ht, (parse_iff_isSequence.1 _ _ ht _).mpr hd, ?_⟩
  intro e he
  exact parse_iff_isSequence.2 _ _ _ he hd

end SparkTrail.Expr
