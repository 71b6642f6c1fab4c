import SparkTrail.Proofs.Expr.Grammar
import SparkTrail.Proofs.Expr.Readers

/-!
# What the readers accept is in the grammar

A reader that succeeds has split its tokens in two: the kinds of those before the rest are derived
by the reader's nonterminal, with the tree that it returned. The readers that go on with a list
after its first item are related to the repetitions of the grammar. The recursion follows the
readers' own and has their measure.
-/
namespace SparkTrail.Expr.Parser

open Grammar

variable {P Q R : List TokenKind → Prop} {ts mid rest : List Token} {us vs : List TokenKind}
  {e lhs : Expr} {es : List Expr}

/-- The kinds of the tokens before `rest` satisfy `P`. -/
def Used (P : List TokenKind → Prop) (ts rest : List Token) : Prop :=
  ∃ used, ts = used ++ rest ∧ P (used.map (·.kind))

theorem Used.none (h : P []) : Used P ts ts :=
  ⟨[], rfl, h⟩

theorem Used.cons {t : Token} (h : Used P ts rest) (hPQ : ∀ us, P us → Q (t.kind :: us)) :
    Used Q (t :: ts) rest := by
  obtain ⟨used, rfl, hu⟩ := h
  exact ⟨t :: used, rfl, hPQ _ hu⟩

theorem Used.mono (h : Used P ts rest) (hPQ : ∀ us, P us → Q us) : Used Q ts rest := by
  obtain ⟨used, rfl, hu⟩ := h
  exact ⟨used, rfl, hPQ _ hu⟩

theorem Used.append (h : Used P ts mid) (h' : Used Q mid rest)
    (hPQ : ∀ us vs, P us → Q vs → R (us ++ vs)) : Used R ts rest := by
  obtain ⟨used, rfl, hu⟩ := h
  obtain ⟨used', rfl, hu'⟩ := h'
  refine ⟨used ++ used', by rw [List.append_assoc], ?_⟩
  rw [List.map_append]
  exact hPQ _ _ hu hu'

theorem Used.cons_append {t : Token} (h : Used P ts mid) (h' : Used Q mid rest)
    (hPQ : ∀ us vs, P us → Q vs → R (t.kind :: us ++ vs)) : Used R (t :: ts) rest :=
  (h.append h' (R := fun us => R (t.kind :: us)) hPQ).cons fun _ h => h

/-- The tokens between a first one and the last one used. -/
theorem Used.cons_snoc {t t' : Token} (h : Used P ts (t' :: rest))
    (hPQ : ∀ us, P us → Q (t.kind :: us ++ [t'.kind])) : Used Q (t :: ts) rest := by
  obtain ⟨used, rfl, hu⟩ := h
  exact ⟨t :: used ++ [t'], by simp, by simpa using hPQ _ hu⟩

theorem isSequence_ofItems (h : IsSum us e) (h' : IsItems vs es) :
    IsSequence (us ++ vs) (ofItems e es) := by
  cases es with
  | nil =>
    cases h'
    rw [List.append_nil]
    exact .single h
  | cons e' es => exact .several h h' (List.cons_ne_nil _ _)

/-- An argument in front of arguments: where there are none behind it, its comma trails. -/
theorem isArguments_cons (h : IsSum us e) (h' : IsArguments vs es) :
    IsArguments (us ++ .comma :: vs) (e :: es) := by
  cases h' with
  | none => simpa using IsArguments.trailing h .nil
  | some hs hi => exact .some h (.cons hs hi)
  | trailing hs hi => simpa using IsArguments.trailing h (.cons hs hi)

theorem isPrimary_call {name : String} {f : Function}
    (hf : Builtin.lookup? name = some (.function f)) (ha : IsArguments us es) :
    IsPrimary (.name name :: .opening :: us ++ [.closing]) (f.call es) := by
  cases f with
  | unary f =>
    rw [call_unary]
    exact .unaryCall hf ha
  | binary f =>
    rw [call_binary]
    exact .binaryCall hf ha

theorem isPrimary_value {name : String} (h : meaning? name = some (.value e)) :
    IsPrimary [.name name] e := by
  rcases meaning?_eq_value.mp h with ⟨rfl, rfl⟩ | ⟨c, hc, rfl⟩
  · exact .var
  · exact .constant hc

/-- The steps that were read turn the operand before them into a stepped one. -/
theorem used_steps (hr : Reads (steps lhs ts) e rest) :
    Used (fun vs => ∀ {us}, IsPrimary us lhs → IsStepped (us ++ vs) e) ts rest := by
  by_cases hn : ∃ s, next ts = some (.step s)
  · obtain ⟨s, hs⟩ := hn
    obtain ⟨p, ts, rfl⟩ := next_eq_some.mp hs
    obtain ⟨rfl, -, rfl, rfl⟩ := reads_steps_step.mp hr
    exact ⟨[⟨.step s, p⟩], rfl, .step s⟩
  · obtain ⟨rfl, rfl⟩ := (reads_steps_stop (not_exists.mp hn)).mp hr
    refine .none fun h => ?_
    rw [List.append_nil]
    exact .plain h

end SparkTrail.Expr.Parser

namespace SparkTrail.Expr.Parser

open Grammar

-- The binders are part of the statements here, because they change from call to call.
mutual

theorem used_sequence {ts rest e} (h : Reads (sequence ts) e rest) :
    Used (IsSequence · e) ts rest := by
  obtain ⟨first, mid, more, hs, hm, rfl⟩ := reads_sequence.mp h
  have := hs.within
  exact (used_sum hs).append (used_sequenceRest hm) fun _ _ => isSequence_ofItems
  termination_by (ts.length, 4)

theorem used_sequenceRest {ts rest es} (h : Reads (sequenceRest ts) es rest) :
    Used (IsItems · es) ts rest := by
  by_cases hn : next ts = some .comma
  · obtain ⟨p, tail, hts, hlt⟩ := cons_of_next hn
    rw [hts] at h ⊢
    obtain ⟨item, mid, more, hs, hm, rfl⟩ := reads_sequenceRest_comma.mp h
    have := hs.within
    exact (used_sum hs).cons_append (used_sequenceRest hm) fun _ _ => .cons
  · obtain ⟨rfl, rfl⟩ := (reads_sequenceRest_stop hn).mp h
    exact .none .nil
  termination_by (ts.length, 0)

theorem used_sum {ts rest e} (h : Reads (sum ts) e rest) : Used (IsSum · e) ts rest := by
  obtain ⟨first, mid, hp, hr⟩ := reads_sum.mp h
  have := hp.within
  obtain ⟨more, hm, rfl⟩ := used_sumRest hr
  exact (used_product hp).append hm fun _ _ => .mk
  termination_by (ts.length, 3)

/-- The terms that were read are joined to what stood in front of them. -/
theorem used_sumRest {ts rest lhs e} (h : Reads (sumRest lhs ts) e rest) :
    ∃ more, Used (IsTerms · more) ts rest ∧ e = joined lhs more := by
  by_cases hp : next ts = some .plus
  · obtain ⟨p, tail, hts, hlt⟩ := cons_of_next hp
    rw [hts] at h ⊢
    obtain ⟨rhs, mid, hs, hr⟩ := reads_sumRest_plus.mp h
    have := hs.within
    obtain ⟨more, hm, rfl⟩ := used_sumRest hr
    exact ⟨(.add, rhs) :: more, (used_product hs).cons_append hm fun _ _ => .add, rfl⟩
  by_cases hm : next ts = some .minus
  · obtain ⟨p, tail, hts, hlt⟩ := cons_of_next hm
    rw [hts] at h ⊢
    obtain ⟨rhs, mid, hs, hr⟩ := reads_sumRest_minus.mp h
    have := hs.within
    obtain ⟨more, hm, rfl⟩ := used_sumRest hr
    exact ⟨(.sub, rhs) :: more, (used_product hs).cons_append hm fun _ _ => .sub, rfl⟩
  obtain ⟨rfl, rfl⟩ := (reads_sumRest_stop hp hm).mp h
  exact ⟨[], .none .nil, rfl⟩
  termination_by (ts.length, 0)

theorem used_product {ts rest e} (h : Reads (product ts) e rest) :
    Used (IsProduct · e) ts rest := by
  obtain ⟨first, mid, hp, hr⟩ := reads_product.mp h
  have := hp.within
  obtain ⟨more, hm, rfl⟩ := used_productRest hr
  exact (used_signed hp).append hm fun _ _ => .mk
  termination_by (ts.length, 2)

theorem used_productRest {ts rest lhs e} (h : Reads (productRest lhs ts) e rest) :
    ∃ more, Used (IsFactors · more) ts rest ∧ e = joined lhs more := by
  by_cases hm : next ts = some .star
  · obtain ⟨p, tail, hts, hlt⟩ := cons_of_next hm
    rw [hts] at h ⊢
    obtain ⟨rhs, mid, hs, hr⟩ := reads_productRest_star.mp h
    have := hs.within
    obtain ⟨more, hm, rfl⟩ := used_productRest hr
    exact ⟨(.mul, rhs) :: more, (used_signed hs).cons_append hm fun _ _ => .mul, rfl⟩
  by_cases hd : next ts = some .slash
  · obtain ⟨p, tail, hts, hlt⟩ := cons_of_next hd
    rw [hts] at h ⊢
    obtain ⟨rhs, mid, hs, hr⟩ := reads_productRest_slash.mp h
    have := hs.within
    obtain ⟨more, hm, rfl⟩ := used_productRest hr
    exact ⟨(.div, rhs) :: more, (used_signed hs).cons_append hm fun _ _ => .div, rfl⟩
  obtain ⟨rfl, rfl⟩ := (reads_productRest_stop hm hd).mp h
  exact ⟨[], .none .nil, rfl⟩
  termination_by (ts.length, 0)

theorem used_signed {ts rest e} (h : Reads (signed ts) e rest) : Used (IsSigned · e) ts rest := by
  by_cases hm : next ts = some .minus
  · obtain ⟨p, tail, hts, hlt⟩ := cons_of_next hm
    rw [hts] at h ⊢
    obtain ⟨operand, ho, rfl⟩ := reads_signed_minus.mp h
    exact (used_signed ho).cons fun _ => .minus
  by_cases hp : next ts = some .plus
  · obtain ⟨p, tail, hts, hlt⟩ := cons_of_next hp
    rw [hts] at h ⊢
    exact (used_signed (reads_signed_plus.mp h)).cons fun _ => .plus
  by_cases hs : ∃ s, next ts = some (.step s)
  · obtain ⟨s, hs⟩ := hs
    obtain ⟨p, tail, hts, hlt⟩ := cons_of_next hs
    rw [hts] at h ⊢
    obtain ⟨ho, rfl⟩ := reads_signed_step.mp h
    exact (used_signed ho).cons fun _ => .step s
  obtain ⟨operand, mid, ho, hr⟩ := (reads_signed_stepped hp hm (not_exists.mp hs)).mp h
  exact ((used_primary ho).append (used_steps hr) fun _ _ hu hv => hv hu).mono fun _ => .stepped
  termination_by (ts.length, 1)

/-- An operand was read from tokens that the grammar derives it from. -/
theorem used_primary {ts rest e} (h : Reads (primary ts) e rest) :
    Used (IsPrimary · e) ts rest := by
  rcases next_of_reads_primary h with ⟨x, hn⟩ | ⟨name, hn⟩ | hn
  · obtain ⟨p, tail, rfl⟩ := next_eq_some.mp hn
    obtain ⟨rfl, rfl⟩ := reads_primary_number.mp h
    exact ⟨[⟨.number x, p⟩], rfl, .number x⟩
  · obtain ⟨p, tail, rfl⟩ := next_eq_some.mp hn
    rcases primary_name_cases h with ⟨hv, rfl⟩ | ⟨f, q, inner, hf, hts⟩
    · exact ⟨[⟨.name name, p⟩], rfl, isPrimary_value hv⟩
    · rw [hts] at h ⊢
      obtain ⟨args, q', ha, rfl⟩ := (reads_primary_call hf).mp h
      have hlt : inner.length < (⟨.name name, p⟩ :: tail : List Token).length := by
        rw [hts, List.length_cons, List.length_cons]
        omega
      refine ((used_arguments ha).cons_snoc (t := ⟨.opening, q⟩) ?_).cons fun _ h => h
      exact fun _ hu => isPrimary_call (meaning?_eq_function.mp hf) hu
  · obtain ⟨p, tail, hts, hlt⟩ := cons_of_next hn
    rw [hts] at h ⊢
    obtain ⟨q, hs⟩ := reads_primary_group.mp h
    exact ((used_sequence hs).cons_snoc fun _ => .group)
  termination_by (ts.length, 0)

theorem used_arguments {ts rest es} (h : Reads (arguments ts) es rest) :
    Used (IsArguments · es) ts rest := by
  by_cases hn : next ts = some .closing
  · obtain ⟨rfl, rfl⟩ := (reads_arguments_closing hn).mp h
    exact .none .none
  obtain ⟨first, mid, hs, hr⟩ := (reads_arguments_sum hn).mp h
  have := hs.within
  rcases hr with ⟨q, tail, more, hmid, ha, rfl⟩ | ⟨_, rfl, rfl⟩
  · have hlt : tail.length < mid.length := by simp [hmid]
    rw [hmid] at hs
    obtain ⟨used, rfl, hu⟩ := used_sum hs
    obtain ⟨used', rfl, hu'⟩ := used_arguments ha
    exact ⟨used ++ ⟨.comma, q⟩ :: used', by simp, by simpa using isArguments_cons hu hu'⟩
  · exact (used_sum hs).mono fun _ hu => by simpa using IsArguments.some hu .nil
  termination_by (ts.length, 4)

end

end SparkTrail.Expr.Parser
