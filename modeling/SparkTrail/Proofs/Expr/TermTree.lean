import SparkTrail.Proofs.Expr.Soundness
import SparkTrail.Proofs.Expr.TermText

/-!
# The tree of a term, and its value

The grammar derives the tokens of a term with the term's tree. Every term is a primary, because it
comes with its parentheses, so a term may stand wherever an operand may. A term that leaves the
variable alone has the value that is said of it without trees, and evaluating its tree gives the
variable back as it was.
-/
namespace SparkTrail.Expr

open Grammar

section Grammar

variable {us vs : List TokenKind} {e e' : Expr}

theorem isProduct_of_isSigned (h : IsSigned us e) : IsProduct us e := by
  have hp := IsProduct.mk h .nil
  rwa [List.append_nil] at hp

theorem isSum_of_isProduct (h : IsProduct us e) : IsSum us e := by
  have hs := IsSum.mk h .nil
  rwa [List.append_nil] at hs

theorem isSum_of_isSigned (h : IsSigned us e) : IsSum us e :=
  isSum_of_isProduct (isProduct_of_isSigned h)

theorem isSigned_of_isPrimary (h : IsPrimary us e) : IsSigned us e :=
  .stepped (.plain h)

theorem isSum_of_isPrimary (h : IsPrimary us e) : IsSum us e :=
  isSum_of_isSigned (isSigned_of_isPrimary h)

/-- Two primaries with an operator between them. -/
theorem isSum_binary (op : Operator) (h : IsPrimary us e) (h' : IsPrimary vs e') :
    IsSum (us ++ op.kind :: vs) (.binary op e e') := by
  have hs := isSigned_of_isPrimary h
  have hs' := isSigned_of_isPrimary h'
  have hp := isProduct_of_isSigned hs
  have hp' := isProduct_of_isSigned hs'
  cases op with
  | add => simpa [joined, Operator.kind] using IsSum.mk hp (.add hp' .nil)
  | sub => simpa [joined, Operator.kind] using IsSum.mk hp (.sub hp' .nil)
  | mul =>
    refine isSum_of_isProduct ?_
    simpa [joined, Operator.kind] using IsProduct.mk hs (.mul hs' .nil)
  | div =>
    refine isSum_of_isProduct ?_
    simpa [joined, Operator.kind] using IsProduct.mk hs (.div hs' .nil)

end Grammar

/-- What the language's power does is what the host's does, its two exceptions taken together. -/
theorem apply_pow (base exponent : Float) :
    BinaryFn.pow.apply base exponent = hostPower base exponent := by
  rw [BinaryFn.apply, hostPower]
  by_cases hn : exponent.isNaN = true
  · rw [if_pos (by rw [hn, Bool.true_or]), if_pos hn]
    rfl
  · have hf : exponent.isNaN = false := Bool.eq_false_iff.mpr hn
    rw [if_neg hn, hf, Bool.false_or]
    rfl

namespace Term

theorem expr_call (f : Function) (args : List Term) :
    (call f args).expr = f.call (exprs args) := by
  cases f with
  | unary f => exact (call_unary f _).symm
  | binary f => exact (call_binary f _).symm

theorem expr_sequence (first : Term) (more : List Term) :
    (sequence first more).expr = ofItems first.expr (exprs more) := by
  cases more with
  | nil => rfl
  | cons second more => rfl

mutual

/-- A term is a single operand of the grammar, because all that is joined stands in parentheses. -/
theorem isPrimary_kinds : ∀ t : Term, IsPrimary t.kinds t.expr
  | .number n => .number n.value
  | .var => .var
  | .constant c => .constant (lookup?_of_mem (constant_mem c))
  | .negate t =>
    .group (.single (isSum_of_isSigned (.minus (isSigned_of_isPrimary (isPrimary_kinds t)))))
  | .binary op a b => .group (.single (isSum_binary op (isPrimary_kinds a) (isPrimary_kinds b)))
  | .step s .before =>
    .group (.single (isSum_of_isSigned (.step s (isSigned_of_isPrimary .var))))
  | .step s .after => .group (.single (isSum_of_isSigned (.stepped (.step s .var))))
  | .call f args => by
    rw [expr_call]
    exact Parser.isPrimary_call (lookup?_of_mem (function_mem f)) (isArguments_listKinds args)
  | .sequence first more => by
    rw [expr_sequence]
    exact .group (Parser.isSequence_ofItems (isSum_of_isPrimary (isPrimary_kinds first))
      (isItems_moreKinds more))

theorem isArguments_listKinds : ∀ ts : List Term, IsArguments (listKinds ts) (exprs ts)
  | [] => .none
  | t :: ts => .some (isSum_of_isPrimary (isPrimary_kinds t)) (isItems_moreKinds ts)

theorem isItems_moreKinds : ∀ ts : List Term, IsItems (moreKinds ts) (exprs ts)
  | [] => .nil
  | t :: ts => .cons (isSum_of_isPrimary (isPrimary_kinds t)) (isItems_moreKinds ts)

end

/-- The digits written for a constant round to its value. -/
theorem value_constant (c : Constant) (x : Float) : (constant c).value x = c.value := by
  cases c with
  | e => rfl
  | pi => rfl

theorem value_binary (op : Operator) (a b : Term) (x : Float) :
    (binary op a b).value x = op.apply (a.value x) (b.value x) := by
  cases op <;> rfl

theorem value_unaryCall (f : UnaryFn) (args : List Term) (x : Float) :
    (call (.unary f) args).value x = f.apply ((values x args).getD 0 absent) := by
  cases f <;> rfl

theorem value_binaryCall (f : BinaryFn) (args : List Term) (x : Float) :
    (call (.binary f) args).value x
      = f.apply ((values x args).getD 0 absent) ((values x args).getD 1 absent) := by
  cases f with
  | pow => exact (apply_pow _ _).symm
  | atan2 => rfl

mutual

/-- A term that leaves the variable alone gives its value, and the variable back as it was. -/
theorem run_expr : ∀ t : Term, t.isPure = true → ∀ x, t.expr.run x = (t.value x, x)
  | .number _, _, _ => rfl
  | .var, _, _ => rfl
  | .constant c, _, x => by
    rw [value_constant]
    rfl
  | .negate t, h, x => by
    show (-(t.expr.run x).1, (t.expr.run x).2) = _
    rw [run_expr t h x]
    rfl
  | .binary op a b, h, x => by
    obtain ⟨ha, hb⟩ := Bool.and_eq_true_iff.mp h
    show (op.apply (a.expr.run x).1 (b.expr.run (a.expr.run x).2).1,
      (b.expr.run (a.expr.run x).2).2) = _
    rw [run_expr a ha x, run_expr b hb x, value_binary]
  | .call (.unary f) [], _, x => by
    rw [value_unaryCall]
    rfl
  | .call (.unary f) (a :: extra), h, x => by
    -- surplus arguments are evaluated too, but pure ones leave the variable as it was
    obtain ⟨ha, he⟩ := Bool.and_eq_true_iff.mp h
    show (f.apply (a.expr.run x).1, (runAll nan (exprs extra) (a.expr.run x).2).2) = _
    rw [run_expr a ha x, runAll_exprs extra he nan x, value_unaryCall]
    rfl
  | .call (.binary f) [], _, x => by
    rw [value_binaryCall]
    rfl
  | .call (.binary f) [a], h, x => by
    obtain ⟨ha, -⟩ := Bool.and_eq_true_iff.mp h
    show (f.apply (a.expr.run x).1 nan, (a.expr.run x).2) = _
    rw [run_expr a ha x, value_binaryCall]
    rfl
  | .call (.binary f) (a :: b :: extra), h, x => by
    obtain ⟨ha, h⟩ := Bool.and_eq_true_iff.mp h
    obtain ⟨hb, he⟩ := Bool.and_eq_true_iff.mp h
    show (f.apply (a.expr.run x).1 (b.expr.run (a.expr.run x).2).1,
      (runAll nan (exprs extra) (b.expr.run (a.expr.run x).2).2).2) = _
    rw [run_expr a ha x, run_expr b hb x, runAll_exprs extra he nan x, value_binaryCall]
    rfl
  | .sequence first [], h, x => run_expr first (Bool.and_eq_true_iff.mp h).1 x
  | .sequence first (second :: more), h, x => by
    obtain ⟨hf, hm⟩ := Bool.and_eq_true_iff.mp h
    show runAll (first.expr.run x).1 (exprs (second :: more)) (first.expr.run x).2 = _
    rw [run_expr first hf x, runAll_exprs (second :: more) hm (first.value x) x]
    rfl

/-- Terms that leave the variable alone, one after the other, give the value of the last. -/
theorem runAll_exprs : ∀ ts : List Term, arePure ts = true → ∀ last x,
    runAll last (exprs ts) x = ((values x ts).getLastD last, x)
  | [], _, _, _ => rfl
  | t :: ts, h, last, x => by
    obtain ⟨ht, hts⟩ := Bool.and_eq_true_iff.mp h
    show runAll (t.expr.run x).1 (exprs ts) (t.expr.run x).2 = _
    rw [run_expr t ht x, runAll_exprs ts hts (t.value x) x, values, List.getLastD_cons]

end

end Term

end SparkTrail.Expr
