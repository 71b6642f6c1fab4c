import SparkTrail.Path.Basic
import SparkTrail.Proofs.Expr.Parse
import SparkTrail.Proofs.Expr.TermTree

/-!
# A written term compiles to itself

Compiling takes a text through the filter, trimming, the lexer and the parser. The text of a term is
left alone by the first two, cut into its own tokens by the third, and the grammar, which the fourth
decides, has the term's tree for these tokens.
-/
namespace SparkTrail.Path

open SparkTrail.Expr

/-- Compiling a text with nothing to drop and nothing to trim is parsing it. -/
theorem compile_of_clean {cs : List Char} (hc : IsClean cs) (ht : Text.trim cs = cs)
    (hne : cs ≠ []) :
    compile (String.ofList cs) = (parse cs).map fun e => ⟨e, String.ofList cs⟩ := by
  have htext : Text.trim (filter (String.ofList cs).toList).text = cs := by
    rw [String.toList_ofList, filter_of_isClean hc, ht]
  rw [compile, htext]
  cases cs with
  | nil => exact absurd rfl hne
  | cons c cs =>
    show (parse (c :: cs) >>= _) = _
    cases parse (c :: cs) with
    | error err => rfl
    | ok e => rfl

theorem parse_text (t : Term) : parse t.text = .ok t.expr := by
  have hl := t.lexes_text ends_nil
  obtain ⟨ts, ht, hk⟩ := hl.tokens_eq
  refine parse_of_isSequence ht ?_
  rw [hk]
  exact .single (isSum_of_isPrimary t.isPrimary_kinds)

/-- A written term compiles, its source is what was written and its expression the term's tree, and
if it leaves the variable alone then its offset is the term's value. -/
theorem compile_text (t : Term) : ∃ p, compile (String.ofList t.text) = .ok p ∧
    p.source = String.ofList t.text ∧ p.expr = t.expr ∧
    (t.isPure = true → ∀ x, p.offset x = t.value x) := by
  have hne : t.text ≠ [] := by
    obtain ⟨c, hc, -⟩ := t.head_text
    intro h
    rw [h] at hc
    cases hc
  refine ⟨⟨t.expr, String.ofList t.text⟩, ?_, rfl, rfl, ?_⟩
  · rw [compile_of_clean t.isClean_text t.trim_text hne, parse_text]
    rfl
  · intro hp x
    show (t.expr.run x).1 = t.value x
    rw [t.run_expr hp x]

/-- A surplus argument is passed over, and the sequence has the value of its last item. -/
theorem compile_text_surplus : ∃ p, compile "(1.5, pow((x * 2), PI, x))" = .ok p ∧
    p.source = "(1.5, pow((x * 2), PI, x))" ∧
    ∀ x, p.offset x = hostPower (x * 2) 3.141592653589793 := by
  let t : Term := .sequence (.number ⟨1, [], some [5]⟩)
    [.call (.binary .pow) [.binary .mul .var (.number ⟨2, [], none⟩), .constant .pi, .var]]
  have htext : String.ofList t.text = "(1.5, pow((x * 2), PI, x))" := by rfl
  obtain ⟨p, hp, hs, -, hv⟩ := compile_text t
  rw [htext] at hp hs
  exact ⟨p, hp, hs, hv rfl⟩

end SparkTrail.Path
