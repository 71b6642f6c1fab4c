import SparkTrail.Proofs.Expr.Parse

/-!
# The occurrences of the variable

An expression in which the variable does not occur has one value and leaves the variable alone. And
reading loses no occurrence: every `x` among the tokens becomes one place of the tree where the
variable stands or is stepped, also where a step takes the place of its operand, a plus sign leaves
nothing behind, or an argument is surplus. So whether an expression uses its variable can be read
off its text.
-/
namespace SparkTrail.Expr

open SparkTrail.Expr.Grammar

mutual

/-- How often the variable stands in an expression, by itself or in a step. -/
def occurrences : Expr → Nat
  | .number _ => 0
  | .var => 1
  | .constant _ => 0
  | .negate e => e.occurrences
  | .binary _ lhs rhs => lhs.occurrences + rhs.occurrences
  | .update _ _ => 1
  | .unaryCall _ arg extra => arg.occurrences + allOccurrences extra
  | .binaryCall _ lhs rhs extra => lhs.occurrences + rhs.occurrences + allOccurrences extra
  | .sequence items => allOccurrences items

def allOccurrences : List Expr → Nat
  | [] => 0
  | e :: es => e.occurrences + allOccurrences es

end

def countVar (ts : List TokenKind) : Nat :=
  ts.count (.name "x")

variable {e : Expr} {es : List Expr} {ts us : List TokenKind}

section Tree

mutual

/-- The test finds the variable wherever it stands, in steps and in surplus arguments too. -/
theorem usesVariable_iff (e : Expr) : e.usesVariable = true ↔ 0 < e.occurrences := by
  match e with
  | .number _ => simp [usesVariable, occurrences]
  | .var => simp [usesVariable, occurrences]
  | .constant _ => simp [usesVariable, occurrences]
  | .negate e => exact usesVariable_iff e
  | .binary _ lhs rhs =>
    rw [usesVariable, occurrences, Bool.or_eq_true, usesVariable_iff lhs, usesVariable_iff rhs]
    omega
  | .update _ _ => simp [usesVariable, occurrences]
  | .unaryCall _ arg extra =>
    rw [usesVariable, occurrences, Bool.or_eq_true, usesVariable_iff arg, anyUsesVariable_iff extra]
    omega
  | .binaryCall _ lhs rhs extra =>
    rw [usesVariable, occurrences, Bool.or_eq_true, Bool.or_eq_true, usesVariable_iff lhs,
      usesVariable_iff rhs, anyUsesVariable_iff extra]
    omega
  | .sequence items => exact anyUsesVariable_iff items

theorem anyUsesVariable_iff (es : List Expr) :
    anyUsesVariable es = true ↔ 0 < allOccurrences es := by
  match es with
  | [] => simp [anyUsesVariable, allOccurrences]
  | e :: es =>
    rw [anyUsesVariable, allOccurrences, Bool.or_eq_true, usesVariable_iff e,
      anyUsesVariable_iff es]
    omega

end

-- The value is the same for every variable, and every operand hands the variable on unchanged.
mutual

/-- Without the variable in it, an expression has one value and leaves the variable alone. -/
theorem run_of_unused (e : Expr) (h : e.usesVariable = false) : ∃ v, ∀ x, e.run x = (v, x) := by
  match e with
  | .number v => exact ⟨v, fun _ => rfl⟩
  | .var => cases h
  | .constant c => exact ⟨c.value, fun _ => rfl⟩
  | .negate e =>
    obtain ⟨v, hv⟩ := run_of_unused e h
    exact ⟨-v, fun x => by simp only [run, hv]⟩
  | .binary op lhs rhs =>
    obtain ⟨hl, hr⟩ := Bool.or_eq_false_iff.mp h
    obtain ⟨a, ha⟩ := run_of_unused lhs hl
    obtain ⟨b, hb⟩ := run_of_unused rhs hr
    exact ⟨op.apply a b, fun x => by simp only [run, ha, hb]⟩
  | .update _ _ => cases h
  | .unaryCall f arg extra =>
    obtain ⟨ha, he⟩ := Bool.or_eq_false_iff.mp h
    obtain ⟨v, hv⟩ := run_of_unused arg ha
    obtain ⟨w, hw⟩ := runAll_of_unused nan extra he
    exact ⟨f.apply v, fun x => by simp only [run, hv, hw]⟩
  | .binaryCall f lhs rhs extra =>
    obtain ⟨hlr, he⟩ := Bool.or_eq_false_iff.mp h
    obtain ⟨hl, hr⟩ := Bool.or_eq_false_iff.mp hlr
    obtain ⟨a, ha⟩ := run_of_unused lhs hl
    obtain ⟨b, hb⟩ := run_of_unused rhs hr
    obtain ⟨w, hw⟩ := runAll_of_unused nan extra he
    exact ⟨f.apply a b, fun x => by simp only [run, ha, hb, hw]⟩
  | .sequence items => exact runAll_of_unused nan items h

theorem runAll_of_unused (last : Float) (es : List Expr) (h : anyUsesVariable es = false) :
    ∃ v, ∀ x, runAll last es x = (v, x) := by
  match es with
  | [] => exact ⟨last, fun _ => rfl⟩
  | e :: es =>
    obtain ⟨he, hes⟩ := Bool.or_eq_false_iff.mp h
    obtain ⟨v, hv⟩ := run_of_unused e he
    obtain ⟨w, hw⟩ := runAll_of_unused v es hes
    exact ⟨w, fun x => by simp only [runAll, hv, hw]⟩

end

theorem occurrences_joined (e : Expr) (more : List (Operator × Expr)) :
    (joined e more).occurrences = e.occurrences + allOccurrences (more.map (·.2)) := by
  induction more generalizing e with
  | nil => rfl
  | cons term more ih =>
    show (joined (.binary term.1 e term.2) more).occurrences = _
    rw [ih, occurrences, List.map_cons, allOccurrences]
    omega

/-- A call keeps all its arguments, and what stands for a missing one is a number. -/
theorem occurrences_call (f : Function) (args : List Expr) :
    (f.call args).occurrences = allOccurrences args := by
  have hmissing : missing.occurrences = 0 := rfl
  cases f with
  | unary f =>
    cases args with
    | nil => simp [Function.call, occurrences, allOccurrences, hmissing]
    | cons a extra => rfl
  | binary f =>
    rcases args with _ | ⟨a, _ | ⟨b, extra⟩⟩
    · simp [Function.call, occurrences, allOccurrences, hmissing]
    · simp [Function.call, occurrences, allOccurrences, hmissing]
    · simp [Function.call, occurrences, allOccurrences, Nat.add_assoc]

end Tree

section Tokens

theorem countVar_append (ts us : List TokenKind) :
    countVar (ts ++ us) = countVar ts + countVar us :=
  List.count_append

theorem countVar_cons {k : TokenKind} (h : k ≠ .name "x") (ts : List TokenKind) :
    countVar (k :: ts) = countVar ts :=
  List.count_cons_of_ne h

theorem countVar_singleton {k : TokenKind} (h : k ≠ .name "x") : countVar [k] = 0 :=
  countVar_cons h []

theorem name_ne_of_lookup {name : String} {b : Builtin} (h : Builtin.lookup? name = some b) :
    TokenKind.name name ≠ .name "x" := by
  intro heq
  cases heq
  cases h

/-- A call has the occurrences of its arguments, because no function is called `x`. -/
theorem countVar_call {name : String} {f : Function}
    (hf : Builtin.lookup? name = some (.function f)) (ha : countVar ts = allOccurrences es) :
    countVar (.name name :: .opening :: ts ++ [.closing]) = (f.call es).occurrences := by
  rw [countVar_append, countVar_cons (name_ne_of_lookup hf), countVar_cons (by simp),
    countVar_singleton (by simp), occurrences_call, ha, Nat.add_zero]

end Tokens

-- One case for each production: what stands beside the parts of a phrase is no `x`.
mutual

theorem countVar_of_isSequence {ts e} (h : IsSequence ts e) : countVar ts = e.occurrences := by
  match h with
  | .single hs => exact countVar_of_isSum hs
  | .several hs hi _ =>
    rw [countVar_append, countVar_of_isSum hs, countVar_of_isItems hi, occurrences, allOccurrences]

theorem countVar_of_isItems {ts es} (h : IsItems ts es) : countVar ts = allOccurrences es := by
  match h with
  | .nil => rfl
  | .cons hs hi =>
    rw [countVar_append, countVar_cons (by simp), countVar_of_isSum hs, countVar_of_isItems hi,
      allOccurrences]

theorem countVar_of_isSum {ts e} (h : IsSum ts e) : countVar ts = e.occurrences := by
  match h with
  | .mk hp ht =>
    rw [countVar_append, countVar_of_isProduct hp, countVar_of_isTerms ht, occurrences_joined]

theorem countVar_of_isTerms {ts more} (h : IsTerms ts more) :
    countVar ts = allOccurrences (more.map (·.2)) := by
  match h with
  | .nil => rfl
  | .add hp ht =>
    rw [countVar_append, countVar_cons (by simp), countVar_of_isProduct hp, countVar_of_isTerms ht,
      List.map_cons, allOccurrences]
  | .sub hp ht =>
    rw [countVar_append, countVar_cons (by simp), countVar_of_isProduct hp, countVar_of_isTerms ht,
      List.map_cons, allOccurrences]

theorem countVar_of_isProduct {ts e} (h : IsProduct ts e) : countVar ts = e.occurrences := by
  match h with
  | .mk hs hf =>
    rw [countVar_append, countVar_of_isSigned hs, countVar_of_isFactors hf, occurrences_joined]

theorem countVar_of_isFactors {ts more} (h : IsFactors ts more) :
    countVar ts = allOccurrences (more.map (·.2)) := by
  match h with
  | .nil => rfl
  | .mul hs hf =>
    rw [countVar_append, countVar_cons (by simp), countVar_of_isSigned hs, countVar_of_isFactors hf,
      List.map_cons, allOccurrences]
  | .div hs hf =>
    rw [countVar_append, countVar_cons (by simp), countVar_of_isSigned hs, countVar_of_isFactors hf,
      List.map_cons, allOccurrences]

theorem countVar_of_isSigned {ts e} (h : IsSigned ts e) : countVar ts = e.occurrences := by
  match h with
  | .plus hs => exact (countVar_cons (by simp) _).trans (countVar_of_isSigned hs)
  | .minus hs =>
    rw [countVar_cons (by simp), countVar_of_isSigned hs, occurrences]
  | .step _ hs =>
    rw [countVar_cons (by simp), countVar_of_isSigned hs]
    rfl
  | .stepped hs => exact countVar_of_isStepped hs

theorem countVar_of_isStepped {ts e} (h : IsStepped ts e) : countVar ts = e.occurrences := by
  match h with
  | .plain hp => exact countVar_of_isPrimary hp
  | .step _ hp =>
    rw [countVar_append, countVar_singleton (by simp), countVar_of_isPrimary hp]
    rfl

theorem countVar_of_isPrimary {ts e} (h : IsPrimary ts e) : countVar ts = e.occurrences := by
  match h with
  | .number _ => exact countVar_singleton (by simp)
  | .var => rfl
  | .constant hc => exact countVar_singleton (name_ne_of_lookup hc)
  | .unaryCall hf ha =>
    rw [← call_unary]
    exact countVar_call hf (countVar_of_isArguments ha)
  | .binaryCall hf ha =>
    rw [← call_binary]
    exact countVar_call hf (countVar_of_isArguments ha)
  | .group hs =>
    rw [countVar_append, countVar_cons (by simp), countVar_singleton (by simp),
      countVar_of_isSequence hs]
    rfl

theorem countVar_of_isArguments {ts es} (h : IsArguments ts es) :
    countVar ts = allOccurrences es := by
  match h with
  | .none => rfl
  | .some hs hi =>
    rw [countVar_append, countVar_of_isSum hs, countVar_of_isItems hi, allOccurrences]
  | .trailing hs hi =>
    rw [countVar_append, countVar_append, countVar_singleton (by simp), countVar_of_isSum hs,
      countVar_of_isItems hi, allOccurrences]
    rfl

end

/-- Where the variable is not used, it is left alone and the value does not depend on it. The tree
of a text has as many occurrences of the variable as the text has tokens `x`, so it uses the
variable just when there is one. -/
theorem variable_occurrences :
    (∀ e : Expr, e.usesVariable = false →
      ∀ x, (e.run x).2 = x ∧ ∀ y, e.eval x = e.eval y) ∧
    ∀ text e, parse text = .ok e → ∃ ts, tokens text = .ok ts ∧
      e.occurrences = (ts.map (·.kind)).count (.name "x") ∧
      (e.usesVariable = true ↔ .name "x" ∈ ts.map (·.kind)) := by
  refine ⟨?_, ?_⟩
  · intro e h x
    obtain ⟨v, hv⟩ := run_of_unused e h
    refine ⟨by rw [hv], fun y => ?_⟩
    rw [eval, eval, hv, hv]
  · intro text e h
    obtain ⟨ts, ht, -⟩ := Parser.parse_eq_ok.mp h
    have hcount : countVar (ts.map (·.kind)) = e.occurrences :=
      countVar_of_isSequence (isSequence_of_parse ht h)
    refine ⟨ts, ht, hcount.symm, ?_⟩
    rw [usesVariable_iff, ← hcount]
    exact List.count_pos_iff

/-- A plus sign, a step and a surplus argument lose no occurrence. -/
theorem variable_occurrences_surplus :
    ((unaryCall .sin (.constant .pi) [.constant .e]).usesVariable = false ∧
      ∀ x, ((unaryCall .sin (.constant .pi) [.constant .e]).run x).2 = x) ∧
    ∃ e ts, parse "sin(+x,x++)".toList = .ok e ∧ tokens "sin(+x,x++)".toList = .ok ts ∧
      e.occurrences = 2 ∧ (ts.map (·.kind)).count (.name "x") = 2 ∧ e.usesVariable = true := by
  have ht : tokens "sin(+x,x++)".toList = .ok [⟨.name "sin", 0⟩, ⟨.opening, 3⟩, ⟨.plus, 4⟩,
      ⟨.name "x", 5⟩, ⟨.comma, 6⟩, ⟨.name "x", 7⟩, ⟨.step .increment, 8⟩, ⟨.closing, 10⟩] := by
    simp [tokens, lexeme, isNumeral, isNameStart, isNameRest, Text.isBlank]
    rfl
  have hx : IsSum [.plus, .name "x"] .var := .mk (.mk (.plus (.stepped (.plain .var))) .nil) .nil
  have hstep : IsSum [.name "x", .step .increment] (.update .increment .after) :=
    .mk (.mk (.stepped (.step .increment .var)) .nil) .nil
  have hsin : Builtin.lookup? "sin" = some (.function (.unary .sin)) := rfl
  have hcall := IsPrimary.unaryCall hsin (.some hx (.cons hstep .nil))
  have hp := parse_of_isSequence ht (.single (.mk (.mk (.stepped (.plain hcall)) .nil) .nil))
  obtain ⟨hunused, htokens⟩ := variable_occurrences
  obtain ⟨ts, hts, hcount, huses⟩ := htokens _ _ hp
  obtain rfl := Except.ok.inj (ht.symm.trans hts)
  refine ⟨⟨rfl, fun x => (hunused _ rfl x).1⟩, _, _, hp, ht, rfl, ?_, ?_⟩
  · exact hcount.symm
  · exact huses.mpr (by simp)

end SparkTrail.Expr
