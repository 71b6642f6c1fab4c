import SparkTrail.Proofs.Expr.Phrase
import SparkTrail.Proofs.Expr.Readers

/-!
# What can come next

All that the grammar has to know of the tokens to the left of a place is what it waits for there and
which parentheses are open. A phrase leads from each situation in which it can begin to one behind
an operand, with the same parentheses open; so no expression begins with tokens that lead nowhere,
and none is over in a situation that waits for more.
-/
namespace SparkTrail.Expr.Grammar

open SparkTrail.Expr.Parser

/-- What is waited for: an operand; an operand or the end of the arguments; the parenthesis of a
call; what can stand behind an operand, a step included; or that without a step. -/
inductive Awaited where
  | operand
  | argument
  | call
  | step
  | operator

inductive Bracket where
  | group
  | call
  deriving DecidableEq

/-- What is waited for, and the parentheses that are open, the last one first. -/
structure Situation where
  awaited : Awaited
  brackets : List Bracket

/-- Whether an operand can come next. -/
def Awaited.isBefore : Awaited → Bool
  | .operand | .argument => true
  | _ => false

/-- Whether an operand has just ended. -/
def Awaited.isBehind : Awaited → Bool
  | .step | .operator => true
  | _ => false

/-- What is waited for behind a name: a function has to be called. -/
def Awaited.behindName : Meaning → Awaited
  | .value _ => .step
  | .function _ => .call

namespace Situation

/-- Behind the first token of an operand. -/
def operand? (brackets : List Bracket) : TokenKind → Option Situation
  | .number _ => some ⟨.step, brackets⟩
  | .name name => (meaning? name).map fun m => ⟨.behindName m, brackets⟩
  | .plus | .minus | .step _ => some ⟨.operand, brackets⟩
  | .opening => some ⟨.operand, .group :: brackets⟩
  | _ => none

def close? : List Bracket → Option Situation
  | [] => none
  | _ :: brackets => some ⟨.step, brackets⟩

/-- Behind what can follow an operand with its step. A comma may be the last token of arguments. -/
def operator? (brackets : List Bracket) : TokenKind → Option Situation
  | .plus | .minus | .star | .slash => some ⟨.operand, brackets⟩
  | .comma => some ⟨if brackets.head? = some .call then .argument else .operand, brackets⟩
  | .closing => close? brackets
  | _ => none

/-- The situation behind one more token, if the token can come next. -/
def next? (s : Situation) (k : TokenKind) : Option Situation :=
  match s.awaited, k with
  | .operand, k => operand? s.brackets k
  | .argument, .closing => close? s.brackets
  | .argument, k => operand? s.brackets k
  | .call, .opening => some ⟨.argument, .call :: s.brackets⟩
  | .call, _ => none
  | .step, .step _ => some ⟨.operator, s.brackets⟩
  | .step, k => operator? s.brackets k
  | .operator, k => operator? s.brackets k

def after? (s : Situation) (us : List TokenKind) : Option Situation :=
  us.foldlM next? s

def start : Situation :=
  ⟨.operand, []⟩

def IsFinal (s : Situation) : Prop :=
  s.awaited.isBehind = true ∧ s.brackets = []

variable {s s' : Situation} {q q' : Awaited} {brackets : List Bracket} {k : TokenKind}
  {us vs : List TokenKind} {r : Rank} {phrase : Phrase}

@[simp] theorem after?_nil (s : Situation) : s.after? [] = some s := rfl

theorem after?_cons (h : s.next? k = some s') (us : List TokenKind) :
    s.after? (k :: us) = s'.after? us := by
  rw [after?, List.foldlM_cons, h]
  rfl

theorem after?_append (h : s.after? us = some s') (vs : List TokenKind) :
    s.after? (us ++ vs) = s'.after? vs := by
  rw [after?, List.foldlM_append, ← after?, h]
  rfl

/-- Where an operand can begin, its first token is taken as where one must begin. -/
theorem next?_before (hq : q.isBefore = true) (hk : k ≠ .closing) :
    next? ⟨q, brackets⟩ k = operand? brackets k := by
  cases q with
  | operand => rfl
  | argument => cases k <;> first | rfl | exact absurd rfl hk
  | _ => cases hq

/-- Steps apart, what can follow an operand does not depend on whether it has its step. -/
theorem next?_behind (hq : q.isBehind = true) (hk : ∀ s, k ≠ .step s) :
    next? ⟨q, brackets⟩ k = operator? brackets k := by
  cases q with
  | step => cases k <;> first | rfl | exact absurd rfl (hk _)
  | operator => rfl
  | _ => cases hq

/-- Behind an operator stands an operand. -/
theorem next?_operator (hq : q.isBehind = true) (hr : r ≠ .sequence) (hk : k ∈ r.separators) :
    next? ⟨q, brackets⟩ k = some ⟨.operand, brackets⟩ := by
  have hoperator : k ∈ [.plus, .minus] ++ [.star, .slash] := by
    cases r with
    | sequence => exact absurd rfl hr
    | sum => exact List.mem_append_left _ hk
    | product => exact List.mem_append_right _ hk
  simp only [List.cons_append, List.nil_append, List.mem_cons, List.not_mem_nil, or_false]
    at hoperator
  rcases hoperator with rfl | rfl | rfl | rfl <;> exact next?_behind hq (by simp)

/-- A separator stands behind an operand and before another one. -/
theorem next?_separator (hq : q.isBehind = true) (hk : k ∈ r.separators) :
    ∃ q', q'.isBefore = true ∧ next? ⟨q, brackets⟩ k = some ⟨q', brackets⟩ := by
  by_cases hr : r = .sequence
  · subst hr
    obtain rfl := List.mem_singleton.mp hk
    rw [next?_behind hq (by simp)]
    refine ⟨_, ?_, rfl⟩
    split <;> rfl
  · exact ⟨.operand, rfl, next?_operator hq hr hk⟩

/-- The tokens lead behind an operand, with no other parentheses open than before. -/
def LeadsBehind (s : Situation) (us : List TokenKind) : Prop :=
  ∃ q, q.isBehind = true ∧ s.after? us = some ⟨q, s.brackets⟩

theorem LeadsBehind.cons (h : s.next? k = some ⟨q, s.brackets⟩)
    (hus : LeadsBehind ⟨q, s.brackets⟩ us) : LeadsBehind s (k :: us) := by
  obtain ⟨q', hq', hafter⟩ := hus
  exact ⟨q', hq', (after?_cons h us).trans hafter⟩

theorem LeadsBehind.append (h : LeadsBehind s us)
    (hvs : ∀ q, q.isBehind = true → LeadsBehind ⟨q, s.brackets⟩ vs) :
    LeadsBehind s (us ++ vs) := by
  obtain ⟨q, hq, hafter⟩ := h
  obtain ⟨q', hq', hafter'⟩ := hvs q hq
  exact ⟨q', hq', (after?_append hafter vs).trans hafter'⟩

/-- Parentheses around tokens that lead behind an operand make an operand. -/
theorem LeadsBehind.closed {b : Bracket} (h : LeadsBehind ⟨q, b :: brackets⟩ us) :
    after? ⟨q, b :: brackets⟩ (us ++ [.closing]) = some ⟨.step, brackets⟩ := by
  obtain ⟨q', hq', hafter⟩ := h
  rw [after?_append hafter, after?_cons (next?_behind hq' (by simp)), after?_nil]

/-- Where a phrase leads from every situation in which it can begin. -/
def Leads : Phrase → List TokenKind → Prop
  | .primary, us => ∀ q brackets, q.isBefore = true →
      after? ⟨q, brackets⟩ us = some ⟨.step, brackets⟩
  | .more _, us => ∀ q brackets, q.isBehind = true → LeadsBehind ⟨q, brackets⟩ us
  | .arguments, us => ∀ brackets,
      after? ⟨.argument, .call :: brackets⟩ (us ++ [.closing]) = some ⟨.step, brackets⟩
  | _, us => ∀ q brackets, q.isBefore = true → LeadsBehind ⟨q, brackets⟩ us

theorem leads_item : Leads r.item us ↔
    ∀ q brackets, q.isBefore = true → LeadsBehind ⟨q, brackets⟩ us := by
  cases r <;> rfl

theorem next?_name {name : String} {m : Meaning} (hq : q.isBefore = true)
    (h : meaning? name = some m) :
    next? ⟨q, brackets⟩ (.name name) = some ⟨.behindName m, brackets⟩ := by
  rw [next?_before hq (by simp), operand?, h]
  rfl

theorem leads_of_value {name : String} {e : Expr} (h : meaning? name = some (.value e)) :
    Leads .primary [.name name] := by
  intro q brackets hq
  rw [after?_cons (next?_name hq h)]
  rfl

/-- Every phrase leads from wherever it can begin to where it ends, with the same parentheses
open. -/
theorem leads_of_derives (h : Derives phrase us) : Leads phrase us := by
  -- what leads through the parts of a phrase leads through the phrase; the parentheses of a call or
  -- a group stand on the stack in between
  induction h with
  | list _ _ ih ih' =>
    intro q brackets hq
    exact (leads_item.mp ih q brackets hq).append fun q' hq' => ih' q' brackets hq'
  | done =>
    intro q brackets hq
    exact ⟨q, hq, rfl⟩
  | more hk _ _ ih ih' =>
    intro q brackets hq
    obtain ⟨q', hq', hnext⟩ := next?_separator hq hk
    have hitem := leads_item.mp ih q' brackets hq'
    exact .cons hnext (hitem.append fun q' hq' => ih' q' brackets hq')
  | @sign k us hk _ ih =>
    intro q brackets hq
    have hclosing : k ≠ .closing := by rintro rfl; cases hk
    have hnext : next? ⟨q, brackets⟩ k = some ⟨.operand, brackets⟩ := by
      rw [next?_before hq hclosing]
      cases k <;> first | rfl | cases hk
    exact .cons hnext (ih .operand brackets rfl)
  | stepped _ ih => exact ih
  | plain _ ih =>
    intro q brackets hq
    exact ⟨.step, rfl, ih q brackets hq⟩
  | step s _ ih =>
    intro q brackets hq
    refine ⟨.operator, rfl, ?_⟩
    rw [after?_append (ih q brackets hq)]
    rfl
  | number v =>
    intro q brackets hq
    rw [after?_cons (next?_before hq (by simp))]
    rfl
  | var => exact leads_of_value (meaning?_eq_value.mpr (.inl ⟨rfl, rfl⟩))
  | constant hc => exact leads_of_value (meaning?_eq_value.mpr (.inr ⟨_, hc, rfl⟩))
  | call hf _ ih =>
    intro q brackets hq
    rw [List.cons_append, List.cons_append,
      after?_cons (next?_name hq (meaning?_eq_function.mpr hf))]
    exact ih brackets
  | group _ ih =>
    intro q brackets hq
    rw [List.cons_append, after?_cons (next?_before hq (by simp))]
    exact (ih .operand (.group :: brackets) rfl).closed
  | none =>
    intro brackets
    rfl
  | some _ _ ih ih' =>
    intro brackets
    exact ((ih .argument _ rfl).append fun q hq => ih' q _ hq).closed
  | trailing _ _ ih ih' =>
    intro brackets
    obtain ⟨q, hq, hafter⟩ :=
      (ih .argument (.call :: brackets) rfl).append fun q hq => ih' q _ hq
    rw [List.append_assoc, after?_append hafter, List.singleton_append,
      after?_cons (next?_behind hq (by simp))]
    rfl

/-- Every beginning of an expression leads somewhere. -/
theorem exists_after_of_viable (h : Viable .expression us) : ∃ s, start.after? us = some s := by
  obtain ⟨more, hd⟩ := h
  obtain ⟨q, -, hafter⟩ := leads_of_derives hd .operand [] rfl
  cases hus : start.after? us with
  | none =>
    have hnone : start.after? (us ++ more) = none := by
      rw [after?, List.foldlM_append, ← after?, hus]
      rfl
    exact absurd (hnone.symm.trans hafter) (by simp)
  | some s => exact ⟨s, rfl⟩

theorem isFinal_of_derives (h : Derives .expression us) :
    ∃ s, start.after? us = some s ∧ s.IsFinal := by
  obtain ⟨q, hq, hafter⟩ := leads_of_derives h .operand [] rfl
  exact ⟨_, hafter, hq, rfl⟩

end Situation

end SparkTrail.Expr.Grammar
