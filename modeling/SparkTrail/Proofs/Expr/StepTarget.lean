import SparkTrail.Proofs.Expr.Parse
import SparkTrail.Proofs.Expr.TermTree

/-!
# What can be stepped

The operand of a step is checked on its tree and not on its tokens, and two notations leave no trace
in the tree: parentheses around one item, and a plus sign. So the operand of a step is the variable
inside parentheses and behind plus signs, in any mixture, and nothing else. Whether a step stands
before or behind its operand is known from the token before it.
-/
namespace SparkTrail.Expr

open SparkTrail.Expr.Grammar

/-- Whether an operand can end with a token of this kind. A step that comes next belongs to that
operand, and every other step belongs to the operand behind it. -/
def TokenKind.closesOperand : TokenKind → Bool
  | .number _ | .name _ | .closing => true
  | _ => false

/-- The variable, behind plus signs and inside parentheses in any mixture. -/
inductive IsTarget : List TokenKind → Prop
  | var : IsTarget [.name "x"]
  | plus {ts} : IsTarget ts → IsTarget (.plus :: ts)
  | group {ts} : IsTarget ts → IsTarget (.opening :: ts ++ [.closing])

def parenthesisedVar (depth : Nat) : List TokenKind :=
  List.replicate depth .opening ++ .name "x" :: List.replicate depth .closing

/-- Whether a step that comes next stands behind its operand. -/
def followsOperand (front : List TokenKind) : Bool :=
  front.getLast?.any (·.closesOperand)

/-- The operand of the step between `front` and `back` is the variable: right before the step where
it follows an operand, and right behind it elsewhere, and then not stepped again. A plus sign in
front of an operand that is followed by a step is not part of the operand. -/
structure StepsTarget (front back : List TokenKind) : Prop where
  following : followsOperand front = true →
    ∃ lead operand, front = lead ++ operand ∧ IsTarget operand ∧ operand.head? ≠ some .plus
  preceding : followsOperand front = false →
    ∃ operand rest, back = operand ++ rest ∧ IsTarget operand ∧ ∀ s, rest.head? ≠ some (.step s)

/-- All steps among the tokens have the variable as their operand. -/
def StepsVariable (ts : List TokenKind) : Prop :=
  ∀ front s back, ts = front ++ .step s :: back → StepsTarget front back

variable {ts us front back : List TokenKind} {e : Expr} {more : List (Operator × Expr)}
  {k : TokenKind}

section Target

theorem IsTarget.followsOperand (h : IsTarget ts) : followsOperand ts = true := by
  induction h with
  | var => rfl
  | @plus ts _ ih =>
    cases ts with
    | nil => cases ih
    | cons k ts => rwa [Expr.followsOperand, List.getLast?_cons_cons]
  | group _ _ =>
    rw [Expr.followsOperand, List.getLast?_concat]
    rfl

theorem IsTarget.step_notMem (h : IsTarget ts) (s : Step) : .step s ∉ ts := by
  induction h with
  | var => simp
  | plus _ ih => simpa using ih
  | group _ ih => simpa using ih

/-- Without plus signs there are parentheses only. -/
theorem IsTarget.eq_parenthesisedVar (h : IsTarget ts) (hp : .plus ∉ ts) :
    ∃ depth, ts = parenthesisedVar depth := by
  induction h with
  | var => exact ⟨0, rfl⟩
  | plus _ _ => exact absurd List.mem_cons_self hp
  | group _ ih =>
    obtain ⟨depth, rfl⟩ := ih fun h =>
      hp (List.mem_append_left _ (List.mem_cons_of_mem _ h))
    refine ⟨depth + 1, ?_⟩
    rw [parenthesisedVar, parenthesisedVar, List.replicate_succ, List.replicate_succ']
    simp

theorem plus_notMem_parenthesisedVar (depth : Nat) : .plus ∉ parenthesisedVar depth := by
  simp [parenthesisedVar]

/-- Every such operand has the tree of the variable. -/
theorem isSigned_of_isTarget (h : IsTarget ts) : IsSigned ts .var := by
  induction h with
  | var => exact isSigned_of_isPrimary .var
  | plus _ ih => exact .plus ih
  | group _ ih => exact isSigned_of_isPrimary (.group (.single (isSum_of_isSigned ih)))

theorem isPrimary_of_isTarget (h : IsTarget ts) (hp : ts.head? ≠ some .plus) :
    IsPrimary ts .var := by
  cases h with
  | var => exact .var
  | plus _ => exact absurd rfl hp
  | group h => exact .group (.single (isSum_of_isSigned (isSigned_of_isTarget h)))

/-- Operands that are joined are the variable only where there is nothing to join. -/
theorem joined_eq_var (h : joined e more = .var) : e = .var ∧ more = [] := by
  have hbinary : ∀ (more : List (Operator × Expr)) (op : Operator) (a b : Expr),
      joined (.binary op a b) more ≠ .var := by
    intro more
    induction more with
    | nil =>
      intro op a b
      simp [joined]
    | cons term more ih =>
      intro op a b
      exact ih term.1 (.binary op a b) term.2
  cases more with
  | nil => exact ⟨h, rfl⟩
  | cons term more => exact absurd h (hbinary more term.1 e term.2)

end Target

-- Only the productions that can give the variable are looked at: the recursion goes down the
-- grammar through one item, one term and one factor to a primary, or behind a plus sign.
mutual

theorem isTarget_of_isSequence {ts e} (h : IsSequence ts e) (he : e = .var) : IsTarget ts := by
  match h with
  | .single hs => exact isTarget_of_isSum hs he
  | .several _ _ _ => cases he

/-- A sum whose tree is the variable is written as the variable with plus signs and parentheses
only. -/
theorem isTarget_of_isSum {ts e} (h : IsSum ts e) (he : e = .var) : IsTarget ts := by
  match h with
  | .mk hp ht =>
    obtain ⟨he, rfl⟩ := joined_eq_var he
    cases ht
    rw [List.append_nil]
    exact isTarget_of_isProduct hp he

theorem isTarget_of_isProduct {ts e} (h : IsProduct ts e) (he : e = .var) : IsTarget ts := by
  match h with
  | .mk hs hf =>
    obtain ⟨he, rfl⟩ := joined_eq_var he
    cases hf
    rw [List.append_nil]
    exact isTarget_of_isSigned hs he

theorem isTarget_of_isSigned {ts e} (h : IsSigned ts e) (he : e = .var) : IsTarget ts := by
  match h with
  | .plus hs => exact (isTarget_of_isSigned hs he).plus
  | .minus _ => cases he
  | .step _ _ => cases he
  | .stepped hs =>
    match hs with
    | .plain hp => exact (isTarget_of_isPrimary hp he).1
    | .step _ _ => cases he

theorem isTarget_of_isPrimary {ts e} (h : IsPrimary ts e) (he : e = .var) :
    IsTarget ts ∧ ts.head? ≠ some .plus := by
  match h with
  | .number _ => cases he
  | .var => exact ⟨.var, by simp⟩
  | .constant _ => cases he
  | .unaryCall _ _ => cases he
  | .binaryCall _ _ => cases he
  | .group hs => exact ⟨(isTarget_of_isSequence hs he).group, by simp⟩

end

section Steps

theorem followsOperand_append (h : us ≠ []) :
    followsOperand (ts ++ us) = followsOperand us := by
  rw [followsOperand, followsOperand, List.getLast?_append, List.getLast?_eq_some_getLast h]
  rfl

/-- More tokens may come behind, but not a step where these end with an operand. -/
theorem StepsTarget.append_right (h : StepsTarget front back)
    (hs : followsOperand back = false ∨ ∀ s, us.head? ≠ some (.step s)) :
    StepsTarget front (back ++ us) := by
  refine ⟨h.following, ?_⟩
  intro hf
  obtain ⟨operand, rest, rfl, ho, hrest⟩ := h.preceding hf
  refine ⟨operand, rest ++ us, by rw [List.append_assoc], ho, ?_⟩
  cases rest with
  | nil =>
    rw [List.append_nil, ho.followsOperand] at hs
    exact hs.resolve_left (by simp)
  | cons k rest => exact hrest

theorem StepsTarget.append_left (h : StepsTarget front back)
    (hf : followsOperand (ts ++ front) = followsOperand front) :
    StepsTarget (ts ++ front) back := by
  constructor
  · intro hfollows
    obtain ⟨lead, operand, rfl, ho⟩ := h.following (hf ▸ hfollows)
    exact ⟨ts ++ lead, operand, by rw [List.append_assoc], ho⟩
  · intro hfollows
    exact h.preceding (hf ▸ hfollows)

theorem stepsVariable_nil : StepsVariable [] := by
  intro front s back h
  simp at h

/-- Phrases one after the other: the second does not start with a step, or the first does not end
with an operand. -/
theorem StepsVariable.append (h : StepsVariable ts) (h' : StepsVariable us)
    (hs : followsOperand ts = false ∨ ∀ s, us.head? ≠ some (.step s)) :
    StepsVariable (ts ++ us) := by
  -- a step at the very start of the second phrase follows no operand
  have hstart : ∀ s back, us = .step s :: back → StepsTarget ts back := by
    intro s back hus
    have hfalse : followsOperand ts = false := by
      rcases hs with hs | hs
      · exact hs
      · exact absurd (by rw [hus]; rfl) (hs s)
    have hfirst := h' [] s back hus
    have hts : StepsTarget (ts ++ []) back :=
      hfirst.append_left (by rw [List.append_nil, hfalse]; rfl)
    rwa [List.append_nil] at hts
  intro front s back heq
  rcases List.append_eq_append_iff.mp heq with ⟨front', rfl, hus⟩ | ⟨back', hts, hback⟩
  · cases front' with
    | nil =>
      rw [List.append_nil]
      exact hstart s back hus
    | cons k front' =>
      exact (h' _ s back hus).append_left (followsOperand_append (List.cons_ne_nil _ _))
  · cases back' with
    | nil =>
      rw [List.append_nil] at hts
      exact hts ▸ hstart s back hback.symm
    | cons k back' =>
      obtain ⟨rfl, rfl⟩ := List.cons.inj hback
      refine (h front s back' hts).append_right (hs.imp_left fun hfalse => ?_)
      cases back' with
      | nil => rfl
      | cons k back' =>
        rw [hts, List.append_cons, followsOperand_append (List.cons_ne_nil _ _)] at hfalse
        exact hfalse

/-- One token that is not a step. -/
theorem stepsVariable_singleton (hk : ∀ s, k ≠ .step s) : StepsVariable [k] := by
  intro front s back h
  rcases List.cons_eq_append_iff.mp h with ⟨rfl, h⟩ | ⟨front', rfl, h⟩
  · cases h
    exact absurd rfl (hk s)
  · simp at h

/-- A token before a phrase that is not a step and with which no operand ends. -/
theorem StepsVariable.cons (h : StepsVariable ts) (hk : ∀ s, k ≠ .step s)
    (hc : k.closesOperand = false) : StepsVariable (k :: ts) :=
  (stepsVariable_singleton hk).append h (Or.inl hc)

theorem StepsVariable.closing (h : StepsVariable ts) : StepsVariable (ts ++ [.closing]) :=
  h.append (stepsVariable_singleton (by simp)) (Or.inr (by simp))

/-- A step before its operand. -/
theorem IsTarget.stepBefore {s : Step} (ht : IsTarget ts) : StepsVariable (.step s :: ts) := by
  intro front s' back heq
  rcases List.cons_eq_append_iff.mp heq with ⟨rfl, hback⟩ | ⟨front', rfl, hts⟩
  · obtain ⟨-, rfl⟩ := List.cons.inj hback
    refine ⟨?_, ?_⟩
    · intro hf
      cases hf
    · intro _
      exact ⟨_, [], (List.append_nil _).symm, ht, by simp⟩
  · exact absurd (hts ▸ List.mem_append_right front' List.mem_cons_self) (ht.step_notMem s')

/-- A step behind its operand. -/
theorem IsTarget.stepAfter {s : Step} (ht : IsTarget ts) (hp : ts.head? ≠ some .plus) :
    StepsVariable (ts ++ [.step s]) := by
  have hlast : StepsTarget ts [] := by
    refine ⟨fun _ => ⟨[], ts, rfl, ht, hp⟩, ?_⟩
    intro hf
    rw [ht.followsOperand] at hf
    cases hf
  intro front s' back heq
  rcases List.append_eq_append_iff.mp heq with ⟨front', rfl, hus⟩ | ⟨back', hts, hback⟩
  · obtain ⟨rfl, hcons⟩ := (List.singleton_eq_append_iff.mp hus).resolve_right (by simp)
    cases hcons
    rwa [List.append_nil]
  · cases back' with
    | nil =>
      cases hback
      rw [List.append_nil] at hts
      exact hts ▸ hlast
    | cons k back' =>
      obtain ⟨rfl, -⟩ := List.cons.inj hback
      exact absurd (hts ▸ List.mem_append_right front List.mem_cons_self) (ht.step_notMem s')

theorem isTerms_head (h : IsTerms us more) (s : Step) : us.head? ≠ some (.step s) := by
  cases h <;> simp

theorem isFactors_head (h : IsFactors us more) (s : Step) : us.head? ≠ some (.step s) := by
  cases h <;> simp

theorem isItems_head {es : List Expr} (h : IsItems us es) (s : Step) :
    us.head? ≠ some (.step s) := by
  cases h <;> simp

/-- The tokens of a call. -/
theorem StepsVariable.call {name : String} (h : StepsVariable ts) :
    StepsVariable (.name name :: .opening :: ts ++ [.closing]) := by
  have hname : StepsVariable [.name name] := stepsVariable_singleton (by simp)
  have hargs : StepsVariable (.opening :: ts ++ [.closing]) := (h.cons (by simp) rfl).closing
  exact hname.append hargs (Or.inr (by simp))

end Steps

-- One case for each production. Steps are in `IsSigned` and `IsStepped` only; in all other cases
-- the property goes through from the parts to the whole.
mutual

theorem stepsVariable_of_isSequence {ts e} (h : IsSequence ts e) : StepsVariable ts := by
  match h with
  | .single hs => exact stepsVariable_of_isSum hs
  | .several hs hi _ =>
    exact (stepsVariable_of_isSum hs).append (stepsVariable_of_isItems hi)
      (Or.inr (isItems_head hi))

theorem stepsVariable_of_isItems {ts es} (h : IsItems ts es) : StepsVariable ts := by
  match h with
  | .nil => exact stepsVariable_nil
  | .cons hs hi =>
    have hcomma := (stepsVariable_of_isSum hs).cons (k := .comma) (by simp) rfl
    exact hcomma.append (stepsVariable_of_isItems hi) (Or.inr (isItems_head hi))

theorem stepsVariable_of_isSum {ts e} (h : IsSum ts e) : StepsVariable ts := by
  match h with
  | .mk hp ht =>
    exact (stepsVariable_of_isProduct hp).append (stepsVariable_of_isTerms ht)
      (Or.inr (isTerms_head ht))

theorem stepsVariable_of_isTerms {ts more} (h : IsTerms ts more) : StepsVariable ts := by
  match h with
  | .nil => exact stepsVariable_nil
  | .add hp ht =>
    have hplus := (stepsVariable_of_isProduct hp).cons (k := .plus) (by simp) rfl
    exact hplus.append (stepsVariable_of_isTerms ht) (Or.inr (isTerms_head ht))
  | .sub hp ht =>
    have hminus := (stepsVariable_of_isProduct hp).cons (k := .minus) (by simp) rfl
    exact hminus.append (stepsVariable_of_isTerms ht) (Or.inr (isTerms_head ht))

theorem stepsVariable_of_isProduct {ts e} (h : IsProduct ts e) : StepsVariable ts := by
  match h with
  | .mk hs hf =>
    exact (stepsVariable_of_isSigned hs).append (stepsVariable_of_isFactors hf)
      (Or.inr (isFactors_head hf))

theorem stepsVariable_of_isFactors {ts more} (h : IsFactors ts more) : StepsVariable ts := by
  match h with
  | .nil => exact stepsVariable_nil
  | .mul hs hf =>
    have hstar := (stepsVariable_of_isSigned hs).cons (k := .star) (by simp) rfl
    exact hstar.append (stepsVariable_of_isFactors hf) (Or.inr (isFactors_head hf))
  | .div hs hf =>
    have hslash := (stepsVariable_of_isSigned hs).cons (k := .slash) (by simp) rfl
    exact hslash.append (stepsVariable_of_isFactors hf) (Or.inr (isFactors_head hf))

theorem stepsVariable_of_isSigned {ts e} (h : IsSigned ts e) : StepsVariable ts := by
  match h with
  | .plus hs => exact (stepsVariable_of_isSigned hs).cons (by simp) rfl
  | .minus hs => exact (stepsVariable_of_isSigned hs).cons (by simp) rfl
  | .step s hs => exact (isTarget_of_isSigned hs rfl).stepBefore
  | .stepped hs => exact stepsVariable_of_isStepped hs

theorem stepsVariable_of_isStepped {ts e} (h : IsStepped ts e) : StepsVariable ts := by
  match h with
  | .plain hp => exact stepsVariable_of_isPrimary hp
  | .step s hp =>
    obtain ⟨ht, hplus⟩ := isTarget_of_isPrimary hp rfl
    exact ht.stepAfter hplus

theorem stepsVariable_of_isPrimary {ts e} (h : IsPrimary ts e) : StepsVariable ts := by
  match h with
  | .number _ => exact stepsVariable_singleton (by simp)
  | .var => exact stepsVariable_singleton (by simp)
  | .constant _ => exact stepsVariable_singleton (by simp)
  | .unaryCall _ ha => exact (stepsVariable_of_isArguments ha).call
  | .binaryCall _ ha => exact (stepsVariable_of_isArguments ha).call
  | .group hs => exact ((stepsVariable_of_isSequence hs).cons (by simp) rfl).closing

theorem stepsVariable_of_isArguments {ts es} (h : IsArguments ts es) : StepsVariable ts := by
  match h with
  | .none => exact stepsVariable_nil
  | .some hs hi =>
    exact (stepsVariable_of_isSum hs).append (stepsVariable_of_isItems hi)
      (Or.inr (isItems_head hi))
  | .trailing hs hi =>
    have hlist := (stepsVariable_of_isSum hs).append (stepsVariable_of_isItems hi)
      (Or.inr (isItems_head hi))
    exact hlist.append (stepsVariable_singleton (by simp)) (Or.inr (by simp))

end

/-- In a text that stands for an expression the operand of every step is the variable, inside
parentheses and behind plus signs in any mixture, and nothing else; every such operand can be
stepped, before it and, if it does not start with a plus sign, behind it; and it is the variable in
parentheses just when there is no plus sign in it. -/
theorem step_operand (text : List Char) :
    (∀ e, parse text = .ok e →
      ∃ ts, tokens text = .ok ts ∧ StepsVariable (ts.map (·.kind))) ∧
    (∀ ts s operand, tokens text = .ok ts → IsTarget operand →
      (ts.map (·.kind) = .step s :: operand → parse text = .ok (.update s .before)) ∧
      (ts.map (·.kind) = operand ++ [.step s] → operand.head? ≠ some .plus →
        parse text = .ok (.update s .after))) ∧
    ∀ operand, IsTarget operand →
      (.plus ∉ operand ↔ ∃ depth, operand = parenthesisedVar depth) := by
  refine ⟨?_, ?_, fun operand ho => ⟨ho.eq_parenthesisedVar, ?_⟩⟩
  · intro e h
    obtain ⟨ts, ht, -⟩ := Parser.parse_eq_ok.mp h
    exact ⟨ts, ht, stepsVariable_of_isSequence (isSequence_of_parse ht h)⟩
  · intro ts s operand ht ho
    refine ⟨?_, ?_⟩
    · intro hts
      refine parse_of_isSequence ht (.single (isSum_of_isSigned ?_))
      rw [hts]
      exact .step s (isSigned_of_isTarget ho)
    · intro hts hp
      refine parse_of_isSequence ht (.single (isSum_of_isSigned (.stepped ?_)))
      rw [hts]
      exact .step s (isPrimary_of_isTarget ho hp)
  · rintro ⟨depth, rfl⟩
    exact plus_notMem_parenthesisedVar depth

/-- A signed operand behind a step and a group before one. -/
theorem step_operand_signed :
    ∃ ts ts', tokens "++(+x)".toList = .ok ts ∧ tokens "(x)--".toList = .ok ts' ∧
      parse "++(+x)".toList = .ok (.update .increment .before) ∧
      parse "(x)--".toList = .ok (.update .decrement .after) ∧
      StepsVariable (ts.map (·.kind)) ∧
      ∃ depth, [.opening, .name "x", .closing] = parenthesisedVar depth := by
  have ht : tokens "++(+x)".toList = .ok [⟨.step .increment, 0⟩, ⟨.opening, 2⟩, ⟨.plus, 3⟩,
      ⟨.name "x", 4⟩, ⟨.closing, 5⟩] := by
    simp [tokens, lexeme, isNumeral, isNameStart, isNameRest, Text.isBlank]
    rfl
  have ht' : tokens "(x)--".toList = .ok [⟨.opening, 0⟩, ⟨.name "x", 1⟩, ⟨.closing, 2⟩,
      ⟨.step .decrement, 3⟩] := by
    simp [tokens, lexeme, isNumeral, isNameStart, isNameRest, Text.isBlank]
    rfl
  obtain ⟨hsteps, hstepped, -⟩ := step_operand "++(+x)".toList
  obtain ⟨-, hstepped', hplain⟩ := step_operand "(x)--".toList
  have hbefore := (hstepped _ .increment _ ht (.group (.plus .var))).1 rfl
  have hafter := (hstepped' _ .decrement _ ht' (.group .var)).2 rfl (by simp)
  obtain ⟨ts, hts, hvariable⟩ := hsteps _ hbefore
  obtain rfl := Except.ok.inj (ht.symm.trans hts)
  exact ⟨_, _, ht, ht', hbefore, hafter, hvariable, (hplain _ (.group .var)).mp (by decide)⟩

/-- A step in front of a plus sign is accepted, although its operand is not the variable in
parentheses. -/
theorem signed_variable_is_stepped :
    ∃ ts, tokens "++ +x".toList = .ok ts ∧
      ts.map (·.kind) = [.step .increment, .plus, .name "x"] ∧
      parse "++ +x".toList = .ok (.update .increment .before) ∧
      ∀ depth rest, [.plus, .name "x"] ≠ parenthesisedVar depth ++ rest := by
  have ht : tokens "++ +x".toList = .ok [⟨.step .increment, 0⟩, ⟨.plus, 3⟩, ⟨.name "x", 4⟩] := by
    simp [tokens, lexeme, isNumeral, isNameStart, Text.isBlank]
    rfl
  refine ⟨_, ht, rfl, ?_, ?_⟩
  · exact parse_of_isSequence ht
      (.single (isSum_of_isSigned (.step .increment (.plus (isSigned_of_isPrimary .var)))))
  · intro depth rest
    cases depth with
    | zero => simp [parenthesisedVar]
    | succ n => simp [parenthesisedVar, List.replicate_succ]

end SparkTrail.Expr
