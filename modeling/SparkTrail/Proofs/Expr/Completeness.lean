import SparkTrail.Proofs.Expr.Grammar
import SparkTrail.Proofs.Expr.Readers

/-!
# What the grammar derives is accepted

A derived list of tokens is read with the tree of its derivation where what follows does not go on
with it. How far a nonterminal could go on is its level: each token is given the level of the reader
that takes it as a continuation, and after a nonterminal must come a token above its own.
-/
namespace SparkTrail.Expr

/-- Which readers go on at a token: those whose level is at least the token's. -/
def TokenKind.level : TokenKind → Nat
  | .opening => 0
  | .step _ => 1
  | .star | .slash => 2
  | .plus | .minus => 3
  | .comma => 4
  | .number _ | .name _ | .closing => 5

namespace Parser

open Grammar

/-- No reader of the level or below goes on at these tokens. -/
def Stops (level : Nat) (ts : List Token) : Prop :=
  ∀ k, next ts = some k → level < k.level

theorem Stops.below {m n : Nat} {ts : List Token} (h : Stops n ts) (hmn : m ≤ n) : Stops m ts :=
  fun k hk => Nat.lt_of_le_of_lt hmn (h k hk)

theorem Stops.ne {n : Nat} {ts : List Token} {k : TokenKind} (h : Stops n ts) (hk : k.level ≤ n) :
    next ts ≠ some k :=
  fun hn => absurd (h k hn) (Nat.not_lt.mpr hk)

theorem stops_cons {n p : Nat} {k : TokenKind} {ts : List Token} (h : n < k.level) :
    Stops n (⟨k, p⟩ :: ts) := by
  intro k' hk'
  cases hk'
  exact h

theorem stops_nil {n : Nat} : Stops n [] := by
  intro k hk
  cases hk

theorem eq_cons_of_map {ts : List Token} {k : TokenKind} {us : List TokenKind}
    (h : ts.map (·.kind) = k :: us) : ∃ p tail, ts = ⟨k, p⟩ :: tail ∧ tail.map (·.kind) = us := by
  obtain ⟨t, tail, rfl, rfl, rfl⟩ := List.map_eq_cons_iff.mp h
  exact ⟨t.position, tail, rfl, rfl⟩

/-- The tokens of a first kind and of two lists of kinds after it. -/
theorem eq_cons_append_of_map {ts : List Token} {k : TokenKind} {us vs : List TokenKind}
    (h : ts.map (·.kind) = k :: us ++ vs) : ∃ p l l', ts = ⟨k, p⟩ :: (l ++ l') ∧
      l.map (·.kind) = us ∧ l'.map (·.kind) = vs := by
  obtain ⟨p, tail, rfl, htail⟩ := eq_cons_of_map h
  obtain ⟨l, l', rfl, hl, hl'⟩ := List.map_eq_append_iff.mp htail
  exact ⟨p, l, l', rfl, hl, hl'⟩

theorem eq_singleton_of_map {ts : List Token} {k : TokenKind} (h : ts.map (·.kind) = [k]) :
    ∃ p, ts = [⟨k, p⟩] := by
  obtain ⟨p, tail, rfl, htail⟩ := eq_cons_of_map h
  rw [List.map_eq_nil_iff.mp htail]
  exact ⟨p, rfl⟩

/-- No sum begins with a closing parenthesis, so a call without arguments can be told from its next
token. -/
theorem closing_ne_next {ts rest : List Token} {e : Expr} (h : Reads (sum ts) e rest) :
    next ts ≠ some .closing := by
  intro hn
  obtain ⟨p, tail, rfl⟩ := next_eq_some.mp hn
  obtain ⟨first, mid, hp, -⟩ := reads_sum.mp h
  obtain ⟨first, mid, hs, -⟩ := reads_product.mp hp
  obtain ⟨first, mid, ho, -⟩ := (reads_signed_stepped (by simp) (by simp) (by simp)).mp hs
  rcases next_of_reads_primary ho with ⟨x, h⟩ | ⟨name, h⟩ | h <;> cases h

/-- The reader of an item stops at the comma before the next one. -/
theorem stops_items {n : Nat} {us : List TokenKind} {es : List Expr} {ts rest : List Token}
    (h : IsItems us es) (hts : ts.map (·.kind) = us) (hn : n < 4) (hr : Stops n rest) :
    Stops n (ts ++ rest) := by
  cases h with
  | nil =>
    rw [List.map_eq_nil_iff.mp hts]
    exact hr
  | cons hs hi =>
    obtain ⟨p, tail, rfl, -⟩ := eq_cons_of_map hts
    exact stops_cons hn

/-- The reader of a term stops at the sign before the next one. -/
theorem stops_terms {us : List TokenKind} {more : List (Operator × Expr)} {ts rest : List Token}
    (h : IsTerms us more) (hts : ts.map (·.kind) = us) (hr : Stops 2 rest) :
    Stops 2 (ts ++ rest) := by
  cases h with
  | nil =>
    rw [List.map_eq_nil_iff.mp hts]
    exact hr
  | add hp ht =>
    obtain ⟨p, tail, rfl, -⟩ := eq_cons_of_map hts
    exact stops_cons (by decide)
  | sub hp ht =>
    obtain ⟨p, tail, rfl, -⟩ := eq_cons_of_map hts
    exact stops_cons (by decide)

/-- The reader of a factor stops at the operator before the next one. -/
theorem stops_factors {us : List TokenKind} {more : List (Operator × Expr)} {ts rest : List Token}
    (h : IsFactors us more) (hts : ts.map (·.kind) = us) (hr : Stops 1 rest) :
    Stops 1 (ts ++ rest) := by
  cases h with
  | nil =>
    rw [List.map_eq_nil_iff.mp hts]
    exact hr
  | mul hs hf =>
    obtain ⟨p, tail, rfl, -⟩ := eq_cons_of_map hts
    exact stops_cons (by decide)
  | div hs hf =>
    obtain ⟨p, tail, rfl, -⟩ := eq_cons_of_map hts
    exact stops_cons (by decide)

/-- What ends the arguments of a call: its closing parenthesis, or one comma before it. -/
def EndsArguments (ts rest : List Token) : Prop :=
  next rest = some .closing ∧ (ts = rest ∨ ∃ q, ts = ⟨.comma, q⟩ :: rest)

theorem EndsArguments.stops {ts rest : List Token} (h : EndsArguments ts rest) : Stops 3 ts := by
  obtain ⟨hc, rfl | ⟨q, rfl⟩⟩ := h
  · intro k hk
    cases hk.symm.trans hc
    decide
  · exact stops_cons (by decide)

theorem reads_arguments_end {ts ts' rest : List Token} {e : Expr} (h : EndsArguments ts' rest)
    (hs : Reads (sum ts) e ts') : Reads (arguments ts) [e] rest := by
  obtain ⟨hc, rfl | ⟨q, rfl⟩⟩ := h
  · refine (reads_arguments_sum (closing_ne_next hs)).mpr ⟨e, ts', hs, Or.inr ⟨?_, rfl, rfl⟩⟩
    simp [hc]
  · have hnil := (reads_arguments_closing hc).mpr ⟨rfl, rfl⟩
    exact (reads_arguments_sum (closing_ne_next hs)).mpr
      ⟨e, _, hs, Or.inl ⟨q, rest, [], rfl, hnil, rfl⟩⟩

theorem reads_primary_of_arguments {name : String} {f : Function} {ts rest : List Token}
    {us : List TokenKind} {args : List Expr}
    (hf : Builtin.lookup? name = some (.function f))
    (hts : ts.map (·.kind) = .name name :: .opening :: us ++ [.closing])
    (ha : ∀ {ts rest}, ts.map (·.kind) = us → next rest = some .closing →
      Reads (arguments (ts ++ rest)) args rest) :
    Reads (primary (ts ++ rest)) (f.call args) rest := by
  obtain ⟨p, tail, rfl, htail⟩ := eq_cons_of_map hts
  obtain ⟨p', l, l', rfl, hl, hl'⟩ := eq_cons_append_of_map htail
  obtain ⟨q, rfl⟩ := eq_singleton_of_map hl'
  rw [List.cons_append, List.cons_append, List.append_assoc]
  exact (reads_primary_call (meaning?_eq_function.mpr hf)).mpr ⟨args, q, ha hl rfl, rfl⟩

-- The recursion is on the derivation. `Stops n rest` carries it: behind the tokens of a phrase
-- stands none that a reader of that rank would go on with, so it gives back just the rest.
mutual

/-- What the grammar derives is read with the tree it is derived with, if no reader goes on behind
it. -/
theorem reads_of_isSequence {us e} (h : IsSequence us e) {ts rest} (hts : ts.map (·.kind) = us)
    (hr : Stops 4 rest) : Reads (sequence (ts ++ rest)) e rest := by
  match h with
  | .single hs =>
    have hread := reads_of_isSum hs hts (hr.below (by decide))
    have hstop := (reads_sequenceRest_stop (hr.ne (k := .comma) (by decide))).mpr ⟨rfl, rfl⟩
    exact reads_sequence.mpr ⟨_, _, _, hread, hstop, rfl⟩
  | .several hs hi hne =>
    obtain ⟨l, l', rfl, hl, hl'⟩ := List.map_eq_append_iff.mp hts
    have hstop := stops_items hi hl' (n := 3) (by decide) (hr.below (by decide))
    have hread := reads_of_isSum hs hl hstop
    rw [List.append_assoc]
    have hitems := reads_of_isItems hi hl' hr
    exact reads_sequence.mpr ⟨_, _, _, hread, hitems, (ofItems_of_ne_nil hne).symm⟩

theorem reads_of_isItems {us es} (h : IsItems us es) {ts rest} (hts : ts.map (·.kind) = us)
    (hr : Stops 4 rest) : Reads (sequenceRest (ts ++ rest)) es rest := by
  match h with
  | .nil =>
    rw [List.map_eq_nil_iff.mp hts]
    exact (reads_sequenceRest_stop (hr.ne (k := .comma) (by decide))).mpr ⟨rfl, rfl⟩
  | .cons hs hi =>
    obtain ⟨p, l, l', rfl, hl, hl'⟩ := eq_cons_append_of_map hts
    have hstop := stops_items hi hl' (n := 3) (by decide) (hr.below (by decide))
    have hread := reads_of_isSum hs hl hstop
    rw [List.cons_append, List.append_assoc]
    exact reads_sequenceRest_comma.mpr ⟨_, _, _, hread, reads_of_isItems hi hl' hr, rfl⟩

theorem reads_of_isSum {us e} (h : IsSum us e) {ts rest} (hts : ts.map (·.kind) = us)
    (hr : Stops 3 rest) : Reads (sum (ts ++ rest)) e rest := by
  match h with
  | .mk hp ht =>
    obtain ⟨l, l', rfl, hl, hl'⟩ := List.map_eq_append_iff.mp hts
    have hread := reads_of_isProduct hp hl (stops_terms ht hl' (hr.below (by decide)))
    rw [List.append_assoc]
    exact reads_sum.mpr ⟨_, _, hread, reads_of_isTerms ht hl' hr⟩

theorem reads_of_isTerms {us more} (h : IsTerms us more) {ts rest lhs}
    (hts : ts.map (·.kind) = us) (hr : Stops 3 rest) :
    Reads (sumRest lhs (ts ++ rest)) (joined lhs more) rest := by
  match h with
  | .nil =>
    rw [List.map_eq_nil_iff.mp hts]
    have hplus := hr.ne (k := .plus) (by decide)
    have hminus := hr.ne (k := .minus) (by decide)
    exact (reads_sumRest_stop hplus hminus).mpr ⟨rfl, rfl⟩
  | .add hp ht =>
    obtain ⟨p, l, l', rfl, hl, hl'⟩ := eq_cons_append_of_map hts
    have hread := reads_of_isProduct hp hl (stops_terms ht hl' (hr.below (by decide)))
    rw [List.cons_append, List.append_assoc]
    exact reads_sumRest_plus.mpr ⟨_, _, hread, reads_of_isTerms ht hl' hr⟩
  | .sub hp ht =>
    obtain ⟨p, l, l', rfl, hl, hl'⟩ := eq_cons_append_of_map hts
    have hread := reads_of_isProduct hp hl (stops_terms ht hl' (hr.below (by decide)))
    rw [List.cons_append, List.append_assoc]
    exact reads_sumRest_minus.mpr ⟨_, _, hread, reads_of_isTerms ht hl' hr⟩

theorem reads_of_isProduct {us e} (h : IsProduct us e) {ts rest} (hts : ts.map (·.kind) = us)
    (hr : Stops 2 rest) : Reads (product (ts ++ rest)) e rest := by
  match h with
  | .mk hs hf =>
    obtain ⟨l, l', rfl, hl, hl'⟩ := List.map_eq_append_iff.mp hts
    have hread := reads_of_isSigned hs hl (stops_factors hf hl' (hr.below (by decide)))
    rw [List.append_assoc]
    exact reads_product.mpr ⟨_, _, hread, reads_of_isFactors hf hl' hr⟩

theorem reads_of_isFactors {us more} (h : IsFactors us more) {ts rest lhs}
    (hts : ts.map (·.kind) = us) (hr : Stops 2 rest) :
    Reads (productRest lhs (ts ++ rest)) (joined lhs more) rest := by
  match h with
  | .nil =>
    rw [List.map_eq_nil_iff.mp hts]
    have hstar := hr.ne (k := .star) (by decide)
    have hslash := hr.ne (k := .slash) (by decide)
    exact (reads_productRest_stop hstar hslash).mpr ⟨rfl, rfl⟩
  | .mul hs hf =>
    obtain ⟨p, l, l', rfl, hl, hl'⟩ := eq_cons_append_of_map hts
    have hread := reads_of_isSigned hs hl (stops_factors hf hl' (hr.below (by decide)))
    rw [List.cons_append, List.append_assoc]
    exact reads_productRest_star.mpr ⟨_, _, hread, reads_of_isFactors hf hl' hr⟩
  | .div hs hf =>
    obtain ⟨p, l, l', rfl, hl, hl'⟩ := eq_cons_append_of_map hts
    have hread := reads_of_isSigned hs hl (stops_factors hf hl' (hr.below (by decide)))
    rw [List.cons_append, List.append_assoc]
    exact reads_productRest_slash.mpr ⟨_, _, hread, reads_of_isFactors hf hl' hr⟩

theorem reads_of_isSigned {us e} (h : IsSigned us e) {ts rest} (hts : ts.map (·.kind) = us)
    (hr : Stops 1 rest) : Reads (signed (ts ++ rest)) e rest := by
  match h with
  | .plus hs =>
    obtain ⟨p, tail, rfl, htail⟩ := eq_cons_of_map hts
    exact reads_signed_plus.mpr (reads_of_isSigned hs htail hr)
  | .minus hs =>
    obtain ⟨p, tail, rfl, htail⟩ := eq_cons_of_map hts
    exact reads_signed_minus.mpr ⟨_, reads_of_isSigned hs htail hr, rfl⟩
  | .step s hs =>
    obtain ⟨p, tail, rfl, htail⟩ := eq_cons_of_map hts
    exact reads_signed_step.mpr ⟨reads_of_isSigned hs htail hr, rfl⟩
  | .stepped hs =>
    obtain ⟨operand, mid, ho, hsteps⟩ := reads_of_isStepped hs hts hr
    obtain ⟨hp, hm, hs⟩ := not_sign_of_reads_primary ho
    exact (reads_signed_stepped hp hm hs).mpr ⟨operand, mid, ho, hsteps⟩

theorem reads_of_isStepped {us e} (h : IsStepped us e) {ts rest} (hts : ts.map (·.kind) = us)
    (hr : Stops 1 rest) : ∃ operand mid, Reads (primary (ts ++ rest)) operand mid ∧
      Reads (steps operand mid) e rest := by
  have hstep : ∀ s, next rest ≠ some (.step s) := fun s => hr.ne (Nat.le_refl 1)
  match h with
  | .plain hp =>
    have hread := reads_of_isPrimary hp hts (hr.below (by decide))
    exact ⟨_, _, hread, (reads_steps_stop hstep).mpr ⟨rfl, rfl⟩⟩
  | .step s hp =>
    obtain ⟨l, l', rfl, hl, hl'⟩ := List.map_eq_append_iff.mp hts
    obtain ⟨p, rfl⟩ := eq_singleton_of_map hl'
    rw [List.append_assoc]
    have hread : Reads (primary (l ++ ⟨.step s, p⟩ :: rest)) .var (⟨.step s, p⟩ :: rest) :=
      reads_of_isPrimary hp hl (stops_cons Nat.zero_lt_one)
    exact ⟨_, _, hread, reads_steps_step.mpr ⟨rfl, hstep, rfl, rfl⟩⟩

theorem reads_of_isPrimary {us e} (h : IsPrimary us e) {ts rest} (hts : ts.map (·.kind) = us)
    (hr : Stops 0 rest) : Reads (primary (ts ++ rest)) e rest := by
  have hopen := hr.ne (k := .opening) (Nat.le_refl 0)
  match h with
  | .number v =>
    obtain ⟨p, rfl⟩ := eq_singleton_of_map hts
    exact reads_primary_number.mpr ⟨rfl, rfl⟩
  | .var =>
    obtain ⟨p, rfl⟩ := eq_singleton_of_map hts
    have hm := meaning?_eq_value.mpr (Or.inl ⟨rfl, rfl⟩)
    exact (reads_primary_value hm hopen).mpr ⟨rfl, rfl⟩
  | .constant hc =>
    obtain ⟨p, rfl⟩ := eq_singleton_of_map hts
    have hm := meaning?_eq_value.mpr (Or.inr ⟨_, hc, rfl⟩)
    exact (reads_primary_value hm hopen).mpr ⟨rfl, rfl⟩
  | .unaryCall hf ha =>
    rw [← call_unary]
    exact reads_primary_of_arguments hf hts (reads_of_isArguments ha)
  | .binaryCall hf ha =>
    rw [← call_binary]
    exact reads_primary_of_arguments hf hts (reads_of_isArguments ha)
  | .group hs =>
    obtain ⟨p, l, l', rfl, hl, hl'⟩ := eq_cons_append_of_map hts
    obtain ⟨q, rfl⟩ := eq_singleton_of_map hl'
    rw [List.cons_append, List.append_assoc]
    have hread : Reads (sequence (l ++ ⟨.closing, q⟩ :: rest)) e (⟨.closing, q⟩ :: rest) :=
      reads_of_isSequence hs hl (stops_cons (by decide))
    exact reads_primary_group.mpr ⟨q, hread⟩

theorem reads_of_isArguments {us es} (h : IsArguments us es) {ts rest}
    (hts : ts.map (·.kind) = us) (hr : next rest = some .closing) :
    Reads (arguments (ts ++ rest)) es rest := by
  match h with
  | .none =>
    rw [List.map_eq_nil_iff.mp hts]
    exact (reads_arguments_closing hr).mpr ⟨rfl, rfl⟩
  | .some hs hi =>
    obtain ⟨l, l', rfl, hl, hl'⟩ := List.map_eq_append_iff.mp hts
    have hend : EndsArguments rest rest := ⟨hr, Or.inl rfl⟩
    rw [List.append_assoc]
    exact reads_arguments_of_isItems hi hl' hend
      (reads_of_isSum hs hl (stops_items hi hl' (by decide) hend.stops))
  | .trailing hs hi =>
    obtain ⟨l, l'', rfl, hl, hl''⟩ := List.map_eq_append_iff.mp hts
    obtain ⟨q, rfl⟩ := eq_singleton_of_map hl''
    obtain ⟨l, l', rfl, hl, hl'⟩ := List.map_eq_append_iff.mp hl
    have hend : EndsArguments (⟨.comma, q⟩ :: rest) rest := ⟨hr, Or.inr ⟨q, rfl⟩⟩
    rw [List.append_assoc, List.append_assoc]
    exact reads_arguments_of_isItems hi hl' hend
      (reads_of_isSum hs hl (stops_items hi hl' (by decide) hend.stops))

theorem reads_arguments_of_isItems {us es} (h : IsItems us es) {ts ts' rest' rest first}
    (hts : ts.map (·.kind) = us) (hend : EndsArguments rest' rest)
    (hs : Reads (sum ts') first (ts ++ rest')) : Reads (arguments ts') (first :: es) rest := by
  match h with
  | .nil =>
    rw [List.map_eq_nil_iff.mp hts] at hs
    exact reads_arguments_end hend hs
  | .cons hs' hi =>
    obtain ⟨p, l, l', rfl, hl, hl'⟩ := eq_cons_append_of_map hts
    rw [List.cons_append, List.append_assoc] at hs
    have hmore := reads_arguments_of_isItems hi hl' hend
      (reads_of_isSum hs' hl (stops_items hi hl' (by decide) hend.stops))
    exact (reads_arguments_sum (closing_ne_next hs)).mpr
      ⟨first, _, hs, Or.inl ⟨p, _, _, rfl, hmore, rfl⟩⟩

end

end Parser

end SparkTrail.Expr
