import SparkTrail.Proofs.Expr.Phrase

/-!
# Expressions close what they open

Between the parentheses of a group or a call stands a phrase of the grammar, and outside of them no
production has a parenthesis. So every phrase is balanced, and reading one leaves the parentheses
that were open before it as they were.
-/
namespace SparkTrail.Expr

/-- Every parenthesis among the tokens has its partner among them. -/
inductive Balanced : List TokenKind → Prop
  | nil : Balanced []
  | cons {k us} : k ≠ .opening → k ≠ .closing → Balanced us → Balanced (k :: us)
  | group {us vs} : Balanced us → Balanced vs → Balanced (.opening :: us ++ .closing :: vs)

/-- The positions of the parentheses that are open behind the tokens, the last one first, where
those of `stack` are open before them. -/
def openAfter (stack : List Nat) (ts : List Token) : List Nat :=
  ts.foldl (fun stack t =>
    match t.kind with
    | .opening => t.position :: stack
    | .closing => stack.tail
    | _ => stack) stack

namespace Balanced

variable {k : TokenKind} {us vs : List TokenKind}

theorem singleton (ho : k ≠ .opening) (hc : k ≠ .closing) : Balanced [k] :=
  .cons ho hc .nil

theorem append (h : Balanced us) (h' : Balanced vs) : Balanced (us ++ vs) := by
  induction h with
  | nil => exact h'
  | cons ho hc _ ih => exact .cons ho hc ih
  | group hu _ _ ih =>
    rw [List.append_assoc, List.cons_append]
    exact .group hu ih

theorem parenthesized (h : Balanced us) : Balanced (.opening :: us ++ [.closing]) :=
  .group h .nil

end Balanced

section OpenAfter

variable {us : List TokenKind} {stack : List Nat} {ts : List Token}

theorem openAfter_append (stack : List Nat) (ts us : List Token) :
    openAfter stack (ts ++ us) = openAfter (openAfter stack ts) us :=
  List.foldl_append

theorem openAfter_opening (stack : List Nat) (p : Nat) (ts : List Token) :
    openAfter stack (⟨.opening, p⟩ :: ts) = openAfter (p :: stack) ts :=
  rfl

theorem openAfter_closing (stack : List Nat) (p : Nat) (ts : List Token) :
    openAfter stack (⟨.closing, p⟩ :: ts) = openAfter stack.tail ts :=
  rfl

theorem openAfter_cons {t : Token} (ho : t.kind ≠ .opening) (hc : t.kind ≠ .closing)
    (stack : List Nat) (ts : List Token) : openAfter stack (t :: ts) = openAfter stack ts := by
  show openAfter (match t.kind with
    | .opening => t.position :: stack
    | .closing => stack.tail
    | _ => stack) ts = _
  split
  · exact absurd ‹_› ho
  · exact absurd ‹_› hc
  · rfl

/-- Balanced tokens leave what is open as it was. -/
theorem openAfter_of_balanced (h : Balanced us) :
    ∀ stack ts, ts.map Token.kind = us → openAfter stack ts = stack := by
  induction h with
  | nil =>
    intro stack ts hts
    rw [List.map_eq_nil_iff.mp hts]
    rfl
  | cons ho hc _ ih =>
    intro stack ts hts
    obtain ⟨t, more, rfl, rfl, hmore⟩ := List.map_eq_cons_iff.mp hts
    rw [openAfter_cons ho hc, ih stack more hmore]
  | group _ _ ih ih' =>
    intro stack ts hts
    obtain ⟨front, back, rfl, hfront, hback⟩ := List.map_eq_append_iff.mp hts
    obtain ⟨⟨_, p⟩, inner, rfl, rfl, hinner⟩ := List.map_eq_cons_iff.mp hfront
    obtain ⟨⟨_, q⟩, more, rfl, rfl, hmore⟩ := List.map_eq_cons_iff.mp hback
    rw [openAfter_append, openAfter_opening, ih _ inner hinner, openAfter_closing, List.tail_cons,
      ih' _ more hmore]

end OpenAfter

open Grammar

theorem not_bracket_of_separator {r : Rank} {k : TokenKind} (hk : k ∈ r.separators) :
    k ≠ .opening ∧ k ≠ .closing := by
  constructor
  · rintro rfl
    cases r <;> simp [Rank.separators] at hk
  · rintro rfl
    cases r <;> simp [Rank.separators] at hk

/-- Only a group and a call have parentheses of their own, one pair each. -/
theorem balanced_of_derives {phrase : Phrase} {us : List TokenKind} (h : Derives phrase us) :
    Balanced us := by
  induction h with
  | list _ _ ihitem ihmore => exact ihitem.append ihmore
  | done => exact .nil
  | more hk _ _ ihitem ihmore =>
    obtain ⟨ho, hc⟩ := not_bracket_of_separator hk
    exact .cons ho hc (ihitem.append ihmore)
  | sign hk _ ih =>
    refine .cons ?_ ?_ ih
    · rintro rfl
      cases hk
    · rintro rfl
      cases hk
  | stepped _ ih => exact ih
  | plain _ ih => exact ih
  | step s _ ih => exact ih.append (.singleton (by simp) (by simp))
  | number v => exact .singleton (by simp) (by simp)
  | var => exact .singleton (by simp) (by simp)
  | constant _ => exact .singleton (by simp) (by simp)
  | call _ _ ih => exact .cons (by simp) (by simp) ih.parenthesized
  | group _ ih => exact ih.parenthesized
  | none => exact .nil
  | some _ _ ihsum ihmore => exact ihsum.append ihmore
  | trailing _ _ ihsum ihmore =>
    exact (ihsum.append ihmore).append (.singleton (by simp) (by simp))

end SparkTrail.Expr
