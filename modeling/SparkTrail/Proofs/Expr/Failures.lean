import SparkTrail.Proofs.Expr.Brackets
import SparkTrail.Proofs.Expr.Soundness

/-!
# How each reader of the parser fails

A reader fails where one of the readers that it calls fails, each on what the readers before it
left, or at the next token by itself. Each reader gets one equivalence here, the counterpart of what
it reads when it succeeds. From these follows what faults there are: every one names a token that
was read, or a place that was reached in the tokens.
-/
namespace SparkTrail.Expr

namespace Parser

open Text (Reading)

variable {α β γ : Type} {m n : Nat} {e lhs : Expr} {es : List Expr} {ts rest : List Token} {p : Nat}
  {err : Error}

/-- Two readers after one another fail where the first fails, or the second on the rest of the
first. -/
theorem fails_bind {x : Except Error (Reading Token α m)}
    {f : Reading Token α m → Except Error (Reading Token β n)} :
    x >>= f = .error err ↔
      x = .error err ∨ ∃ v mid h, x = .ok ⟨v, mid, h⟩ ∧ f ⟨v, mid, h⟩ = .error err := by
  cases x with
  | error err' =>
    constructor
    · intro h
      cases h
      exact Or.inl rfl
    · rintro (h | ⟨_, _, _, h, _⟩)
      · cases h
        rfl
      · cases h
  | ok r =>
    constructor
    · intro h
      exact Or.inr ⟨r.value, r.rest, r.within, rfl, h⟩
    · rintro (h | ⟨v, mid, hm, h, hf⟩)
      · cases h
      · cases h
        exact hf

/-- Two readers one after the other fail where the first one does, or where the second one does
behind it. -/
theorem fails_both {k : List Token → Nat} {x : Except Error (Reading Token α m)}
    (f : α → (mid : List Token) → Except Error (Reading Token β (k mid))) (g : α → β → γ)
    {hk : (r : Reading Token α m) → (s : Reading Token β (k r.rest)) → s.rest.length < n} :
    (x >>= fun r => f r.value r.rest >>= fun s =>
        pure (⟨g r.value s.value, s.rest, hk r s⟩ : Reading Token γ n)) = .error err ↔
      x = .error err ∨ ∃ v mid, Reads x v mid ∧ f v mid = .error err := by
  rw [fails_bind]
  constructor
  · rintro (h | ⟨v, mid, hm, hx, h⟩)
    · exact Or.inl h
    · rcases fails_bind.mp h with h | ⟨_, _, _, _, h⟩
      · exact Or.inr ⟨v, mid, ⟨hm, hx⟩, h⟩
      · cases h
  · rintro (h | ⟨v, mid, ⟨hm, hx⟩, hf⟩)
    · exact Or.inl h
    · exact Or.inr ⟨v, mid, hm, hx, fails_bind.mpr (Or.inl hf)⟩

theorem fails_chain {k : List Token → Nat} {x : Except Error (Reading Token α m)}
    (f : α → (mid : List Token) → Except Error (Reading Token β (k mid)))
    {hk : (r : Reading Token α m) → k r.rest ≤ n} :
    (x >>= fun r => f r.value r.rest >>= fun s => pure (s.widen (hk r))) = .error err ↔
      x = .error err ∨ ∃ v mid, Reads x v mid ∧ f v mid = .error err :=
  fails_both f fun _ w => w

theorem fails_map {x : Except Error (Reading Token α m)} (g : α → β) (hk : m ≤ n) :
    (x >>= fun r => pure ((r.map g).widen hk)) = .error err ↔ x = .error err := by
  rw [fails_bind]
  constructor
  · rintro (h | ⟨_, _, _, _, h⟩)
    · exact h
    · cases h
  · exact Or.inl

theorem fails_closing (h : closing p ts = .error err) :
    (ts = [] ∧ err = .unclosedParenthesis p) ∨ (next ts ≠ some .closing ∧ err = unexpected ts) := by
  rcases ts with _ | ⟨⟨k, q⟩, tail⟩
  · cases h
    exact Or.inl ⟨rfl, rfl⟩
  · cases k <;> cases h <;> exact Or.inr ⟨by simp, rfl⟩

/-- A step behind an operand that is not the variable, or behind the step of the variable. -/
theorem fails_steps (h : steps lhs ts = .error err) :
    ∃ s q, (⟨.step s, q⟩ : Token) ∈ ts ∧ err = .invalidStepTarget s := by
  by_cases hn : ∃ s, next ts = some (.step s)
  · obtain ⟨s, hs⟩ := hn
    obtain ⟨q, tail, rfl⟩ := next_eq_some.mp hs
    rw [steps.eq_1] at h
    split at h
    · rcases fails_bind.mp h with h | ⟨_, _, _, _, h⟩
      · unfold steps at h
        split at h
        · rw [if_neg (by simp [isVar])] at h
          cases h
          exact ⟨_, _, List.mem_cons_of_mem _ List.mem_cons_self, rfl⟩
        · cases h
      · cases h
    · cases h
      exact ⟨s, q, List.mem_cons_self, rfl⟩
  · rw [steps.eq_2 lhs ts fun s => ne_of_next (not_exists.mp hn s)] at h
    cases h

theorem fails_sequence : sequence ts = .error err ↔
    sum ts = .error err ∨
      ∃ first mid, Reads (sum ts) first mid ∧ sequenceRest mid = .error err := by
  rw [Parser.sequence]
  exact fails_both (fun _ mid => sequenceRest mid) ofItems

theorem fails_sequenceRest_comma : sequenceRest (⟨.comma, p⟩ :: ts) = .error err ↔
    sum ts = .error err ∨
      ∃ item mid, Reads (sum ts) item mid ∧ sequenceRest mid = .error err := by
  rw [sequenceRest.eq_1]
  exact fails_both (fun _ mid => sequenceRest mid) List.cons

theorem next_of_fails_sequenceRest (h : sequenceRest ts = .error err) : next ts = some .comma := by
  apply Decidable.byContradiction
  intro hn
  rw [sequenceRest.eq_2 ts (ne_of_next hn)] at h
  cases h

theorem fails_sum : sum ts = .error err ↔
    product ts = .error err ∨
      ∃ first mid, Reads (product ts) first mid ∧ sumRest first mid = .error err := by
  rw [Parser.sum]
  exact fails_chain fun first mid => sumRest first mid

theorem fails_sumRest_plus : sumRest lhs (⟨.plus, p⟩ :: ts) = .error err ↔
    product ts = .error err ∨ ∃ rhs mid, Reads (product ts) rhs mid ∧
      sumRest (.binary .add lhs rhs) mid = .error err := by
  rw [sumRest.eq_1]
  exact fails_chain fun rhs mid => sumRest (.binary .add lhs rhs) mid

theorem fails_sumRest_minus : sumRest lhs (⟨.minus, p⟩ :: ts) = .error err ↔
    product ts = .error err ∨ ∃ rhs mid, Reads (product ts) rhs mid ∧
      sumRest (.binary .sub lhs rhs) mid = .error err := by
  rw [sumRest.eq_2]
  exact fails_chain fun rhs mid => sumRest (.binary .sub lhs rhs) mid

/-- The further terms of a sum can fail only behind a sign. -/
theorem next_of_fails_sumRest (h : sumRest lhs ts = .error err) :
    next ts = some .plus ∨ next ts = some .minus := by
  apply Decidable.byContradiction
  intro hn
  obtain ⟨hp, hm⟩ := not_or.mp hn
  rw [sumRest.eq_3 lhs ts (ne_of_next hp) (ne_of_next hm)] at h
  cases h

theorem fails_product : product ts = .error err ↔
    signed ts = .error err ∨
      ∃ first mid, Reads (signed ts) first mid ∧ productRest first mid = .error err := by
  rw [Parser.product]
  exact fails_chain fun first mid => productRest first mid

theorem fails_productRest_star : productRest lhs (⟨.star, p⟩ :: ts) = .error err ↔
    signed ts = .error err ∨ ∃ rhs mid, Reads (signed ts) rhs mid ∧
      productRest (.binary .mul lhs rhs) mid = .error err := by
  rw [productRest.eq_1]
  exact fails_chain fun rhs mid => productRest (.binary .mul lhs rhs) mid

theorem fails_productRest_slash : productRest lhs (⟨.slash, p⟩ :: ts) = .error err ↔
    signed ts = .error err ∨ ∃ rhs mid, Reads (signed ts) rhs mid ∧
      productRest (.binary .div lhs rhs) mid = .error err := by
  rw [productRest.eq_2]
  exact fails_chain fun rhs mid => productRest (.binary .div lhs rhs) mid

theorem next_of_fails_productRest (h : productRest lhs ts = .error err) :
    next ts = some .star ∨ next ts = some .slash := by
  apply Decidable.byContradiction
  intro hn
  obtain ⟨hs, hd⟩ := not_or.mp hn
  rw [productRest.eq_3 lhs ts (ne_of_next hs) (ne_of_next hd)] at h
  cases h

theorem fails_signed_minus : signed (⟨.minus, p⟩ :: ts) = .error err ↔ signed ts = .error err := by
  rw [signed.eq_1]
  exact fails_map Expr.negate (Nat.le_succ _)

theorem fails_signed_plus : signed (⟨.plus, p⟩ :: ts) = .error err ↔ signed ts = .error err := by
  rw [signed.eq_2]
  exact fails_map id (Nat.le_succ _)

/-- A step before an operand fails with the operand, or because the operand is not the variable. -/
theorem fails_signed_step {s : Step} : signed (⟨.step s, p⟩ :: ts) = .error err ↔
    signed ts = .error err ∨
      ∃ operand mid, Reads (signed ts) operand mid ∧ operand ≠ .var ∧
        err = .invalidStepTarget s := by
  rw [signed.eq_3, fails_bind]
  constructor
  · rintro (h | ⟨operand, mid, hm, hs, h⟩)
    · exact Or.inl h
    · by_cases hv : operand = .var
      · rw [if_pos (isVar_iff.mpr hv)] at h
        cases h
      · rw [if_neg (mt isVar_iff.mp hv)] at h
        cases h
        exact Or.inr ⟨operand, mid, ⟨hm, hs⟩, hv, rfl⟩
  · rintro (h | ⟨operand, mid, ⟨hm, hs⟩, hv, rfl⟩)
    · exact Or.inl h
    · refine Or.inr ⟨operand, mid, hm, hs, ?_⟩
      rw [if_neg (mt isVar_iff.mp hv)]
      rfl

theorem fails_signed_stepped (hp : next ts ≠ some .plus) (hm : next ts ≠ some .minus)
    (hs : ∀ s, next ts ≠ some (.step s)) : signed ts = .error err ↔
    primary ts = .error err ∨
      ∃ operand mid, Reads (primary ts) operand mid ∧ steps operand mid = .error err := by
  rw [signed.eq_4 ts (ne_of_next hm) (ne_of_next hp) fun s => ne_of_next (hs s)]
  exact fails_chain fun operand mid => steps operand mid

theorem fails_primary_group : primary (⟨.opening, p⟩ :: ts) = .error err ↔
    sequence ts = .error err ∨
      ∃ inner mid, Reads (sequence ts) inner mid ∧ closing p mid = .error err := by
  rw [primary.eq_3]
  exact fails_both (fun _ mid => closing p mid) fun e _ => e

/-- A call fails in its arguments or at its closing parenthesis. -/
theorem fails_primary_call {name : String} {f : Function} {q : Nat}
    (hm : meaning? name = some (.function f)) :
    primary (⟨.name name, p⟩ :: ⟨.opening, q⟩ :: ts) = .error err ↔
      arguments ts = .error err ∨
        ∃ args mid, Reads (arguments ts) args mid ∧ closing q mid = .error err := by
  rw [primary.eq_2, hm]
  exact fails_both (fun _ mid => closing q mid) fun args _ => f.call args

/-- A name without a meaning, a value that is called, or a function that is not; or the arguments
of a call fail. -/
theorem fails_primary_name {name : String} (h : primary (⟨.name name, p⟩ :: ts) = .error err) :
    err = .unknownName name ∨ err = .notCallable name ∨ err = .missingCall name ∨
      ∃ f q inner, meaning? name = some (.function f) ∧ ts = ⟨.opening, q⟩ :: inner := by
  have h' := h
  rw [primary.eq_2] at h'
  cases hm : meaning? name with
  | none =>
    rw [hm] at h'
    cases h'
    exact Or.inl rfl
  | some meaning =>
    rw [hm] at h'
    cases meaning with
    | value e =>
      rcases ts with _ | ⟨⟨k, q⟩, tail⟩
      · cases h'
      · cases k <;> cases h'
        exact Or.inr (Or.inl rfl)
    | function f =>
      rcases ts with _ | ⟨⟨k, q⟩, tail⟩
      · cases h'
        exact Or.inr (Or.inr (Or.inl rfl))
      · cases k with
        | opening => exact Or.inr (Or.inr (Or.inr ⟨f, q, tail, rfl, rfl⟩))
        | _ =>
          cases h'
          exact Or.inr (Or.inr (Or.inl rfl))

/-- What a primary cannot start with is refused there. -/
theorem fails_primary_other (hx : ∀ x, next ts ≠ some (.number x))
    (hn : ∀ name, next ts ≠ some (.name name)) (ho : next ts ≠ some .opening) :
    primary ts = .error (unexpected ts) := by
  rw [primary.eq_4 ts (fun x => ne_of_next (hx x)) (fun name => ne_of_next (hn name))
    (ne_of_next ho)]
  rfl

/-- Arguments fail in the first one or, behind a comma, in the others. -/
theorem fails_arguments_sum (h : next ts ≠ some .closing) (hf : arguments ts = .error err) :
    sum ts = .error err ∨ ∃ first q tail, Reads (sum ts) first (⟨.comma, q⟩ :: tail) ∧
      arguments tail = .error err := by
  rw [arguments.eq_2 ts (ne_of_next h)] at hf
  rcases fails_bind.mp hf with hf | ⟨first, mid, hm, hs, hf⟩
  · exact Or.inl hf
  · rcases mid with _ | ⟨⟨k, q⟩, tail⟩
    · cases hf
    · cases k with
      | comma =>
        rcases fails_bind.mp hf with hf | ⟨_, _, _, _, hf⟩
        · exact Or.inr ⟨first, q, tail, ⟨hm, hs⟩, hf⟩
        · cases hf
      | _ => cases hf

theorem next_ne_closing_of_fails_arguments (h : arguments ts = .error err) :
    next ts ≠ some .closing := by
  intro hn
  obtain ⟨q, tail, rfl⟩ := next_eq_some.mp hn
  rw [arguments.eq_1] at h
  cases h

/-- The faults that there are in tokens: a place where what comes next cannot stand, an opening
parenthesis behind which nothing is left open or closed too often, a step, or a name. -/
inductive Fault (ts : List Token) : Error → Prop
  | unexpected {mid : List Token} : mid <:+ ts → Fault ts (unexpected mid)
  | unclosed {q : Nat} {inner : List Token} : ⟨.opening, q⟩ :: inner <:+ ts →
      Balanced (inner.map (·.kind)) → Fault ts (.unclosedParenthesis q)
  | target {s : Step} {q : Nat} : ⟨.step s, q⟩ ∈ ts → Fault ts (.invalidStepTarget s)
  | unknown {name : String} {q : Nat} : ⟨.name name, q⟩ ∈ ts → Fault ts (.unknownName name)
  | notCallable {name : String} {q : Nat} : ⟨.name name, q⟩ ∈ ts → Fault ts (.notCallable name)
  | missingCall {name : String} {q : Nat} : ⟨.name name, q⟩ ∈ ts → Fault ts (.missingCall name)

/-- A fault in the last part of the tokens is one in the tokens. -/
theorem Fault.of_suffix {mid : List Token} (h : Fault mid err) (hm : mid <:+ ts) :
    Fault ts err := by
  cases h with
  | unexpected hr => exact .unexpected (hr.trans hm)
  | unclosed hp hb => exact .unclosed (hp.trans hm) hb
  | target hs => exact .target (hm.mem hs)
  | unknown hn => exact .unknown (hm.mem hn)
  | notCallable hn => exact .notCallable (hm.mem hn)
  | missingCall hn => exact .missingCall (hm.mem hn)

theorem Fault.cons {t : Token} (h : Fault ts err) : Fault (t :: ts) err :=
  h.of_suffix (List.suffix_cons t ts)

theorem Used.suffix {P : List TokenKind → Prop} (h : Used P ts rest) : rest <:+ ts := by
  obtain ⟨used, rfl, -⟩ := h
  exact List.suffix_append used rest

/-- Where the closing parenthesis is missed, all that was read since the opening one is balanced. -/
theorem fault_closing (h : closing p rest = .error err) (hu : Used Balanced ts rest) :
    Fault (⟨.opening, p⟩ :: ts) err := by
  rcases fails_closing h with ⟨rfl, rfl⟩ | ⟨-, rfl⟩
  · obtain ⟨inner, rfl, hb⟩ := hu
    rw [List.append_nil]
    exact .unclosed List.suffix_rfl hb
  · exact .unexpected (hu.suffix.trans (List.suffix_cons _ _))

theorem fault_steps (h : steps lhs ts = .error err) : Fault ts err := by
  obtain ⟨s, q, hs, rfl⟩ := fails_steps h
  exact .target hs

-- The recursion is that of the readers, with their measure, as for what they read.
mutual

theorem fault_sequence {ts err} (h : sequence ts = .error err) : Fault ts err := by
  rcases fails_sequence.mp h with h | ⟨first, mid, hs, h⟩
  · exact fault_sum h
  · have := hs.within
    exact (fault_sequenceRest h).of_suffix (used_sum hs).suffix
  termination_by (ts.length, 4)

theorem fault_sequenceRest {ts err} (h : sequenceRest ts = .error err) : Fault ts err := by
  obtain ⟨p, tail, hts, hlt⟩ := cons_of_next (next_of_fails_sequenceRest h)
  rw [hts] at h ⊢
  rcases fails_sequenceRest_comma.mp h with h | ⟨item, mid, hs, h⟩
  · exact (fault_sum h).cons
  · have := hs.within
    exact ((fault_sequenceRest h).of_suffix (used_sum hs).suffix).cons
  termination_by (ts.length, 0)

theorem fault_sum {ts err} (h : sum ts = .error err) : Fault ts err := by
  rcases fails_sum.mp h with h | ⟨first, mid, hp, h⟩
  · exact fault_product h
  · have := hp.within
    exact (fault_sumRest h).of_suffix (used_product hp).suffix
  termination_by (ts.length, 3)

theorem fault_sumRest {ts lhs err} (h : sumRest lhs ts = .error err) : Fault ts err := by
  rcases next_of_fails_sumRest h with hn | hn
  · obtain ⟨p, tail, hts, hlt⟩ := cons_of_next hn
    rw [hts] at h ⊢
    rcases fails_sumRest_plus.mp h with h | ⟨rhs, mid, hp, h⟩
    · exact (fault_product h).cons
    · have := hp.within
      exact ((fault_sumRest h).of_suffix (used_product hp).suffix).cons
  · obtain ⟨p, tail, hts, hlt⟩ := cons_of_next hn
    rw [hts] at h ⊢
    rcases fails_sumRest_minus.mp h with h | ⟨rhs, mid, hp, h⟩
    · exact (fault_product h).cons
    · have := hp.within
      exact ((fault_sumRest h).of_suffix (used_product hp).suffix).cons
  termination_by (ts.length, 0)

theorem fault_product {ts err} (h : product ts = .error err) : Fault ts err := by
  rcases fails_product.mp h with h | ⟨first, mid, hs, h⟩
  · exact fault_signed h
  · have := hs.within
    exact (fault_productRest h).of_suffix (used_signed hs).suffix
  termination_by (ts.length, 2)

theorem fault_productRest {ts lhs err} (h : productRest lhs ts = .error err) : Fault ts err := by
  rcases next_of_fails_productRest h with hn | hn
  · obtain ⟨p, tail, hts, hlt⟩ := cons_of_next hn
    rw [hts] at h ⊢
    rcases fails_productRest_star.mp h with h | ⟨rhs, mid, hs, h⟩
    · exact (fault_signed h).cons
    · have := hs.within
      exact ((fault_productRest h).of_suffix (used_signed hs).suffix).cons
  · obtain ⟨p, tail, hts, hlt⟩ := cons_of_next hn
    rw [hts] at h ⊢
    rcases fails_productRest_slash.mp h with h | ⟨rhs, mid, hs, h⟩
    · exact (fault_signed h).cons
    · have := hs.within
      exact ((fault_productRest h).of_suffix (used_signed hs).suffix).cons
  termination_by (ts.length, 0)

theorem fault_signed {ts err} (h : signed ts = .error err) : Fault ts err := by
  by_cases hm : next ts = some .minus
  · obtain ⟨p, tail, hts, hlt⟩ := cons_of_next hm
    rw [hts] at h ⊢
    exact (fault_signed (fails_signed_minus.mp h)).cons
  by_cases hp : next ts = some .plus
  · obtain ⟨p, tail, hts, hlt⟩ := cons_of_next hp
    rw [hts] at h ⊢
    exact (fault_signed (fails_signed_plus.mp h)).cons
  by_cases hs : ∃ s, next ts = some (.step s)
  · obtain ⟨s, hs⟩ := hs
    obtain ⟨p, tail, hts, hlt⟩ := cons_of_next hs
    rw [hts] at h ⊢
    rcases fails_signed_step.mp h with h | ⟨_, _, _, _, rfl⟩
    · exact (fault_signed h).cons
    · exact .target List.mem_cons_self
  rcases (fails_signed_stepped hp hm (not_exists.mp hs)).mp h with h | ⟨operand, mid, ho, h⟩
  · exact fault_primary h
  · exact (fault_steps h).of_suffix (used_primary ho).suffix
  termination_by (ts.length, 1)

theorem fault_primary {ts err} (h : primary ts = .error err) : Fault ts err := by
  by_cases hn : ∃ name, next ts = some (.name name)
  · obtain ⟨name, hn⟩ := hn
    obtain ⟨p, tail, hts, hlt⟩ := cons_of_next hn
    rw [hts] at h ⊢
    rcases fails_primary_name h with rfl | rfl | rfl | ⟨f, q, inner, hf, htail⟩
    · exact .unknown List.mem_cons_self
    · exact .notCallable List.mem_cons_self
    · exact .missingCall List.mem_cons_self
    · rw [htail] at h ⊢
      have hinner : inner.length < ts.length := by
        rw [hts, htail, List.length_cons, List.length_cons]
        omega
      rcases (fails_primary_call hf).mp h with h | ⟨args, mid, ha, h⟩
      · exact (fault_arguments h).cons.cons
      · have hbalanced := (used_arguments ha).mono fun _ hargs =>
          balanced_of_derives (Grammar.derives_of_isArguments hargs)
        exact (fault_closing h hbalanced).cons
  by_cases ho : next ts = some .opening
  · obtain ⟨p, tail, hts, hlt⟩ := cons_of_next ho
    rw [hts] at h ⊢
    rcases fails_primary_group.mp h with h | ⟨inner, mid, hs, h⟩
    · exact (fault_sequence h).cons
    · have hbalanced := (used_sequence hs).mono fun _ hinner =>
        balanced_of_derives (Grammar.derives_of_isSequence hinner)
      exact fault_closing h hbalanced
  by_cases hx : ∃ x, next ts = some (.number x)
  · obtain ⟨x, hx⟩ := hx
    obtain ⟨p, tail, rfl⟩ := next_eq_some.mp hx
    rw [primary.eq_1] at h
    cases h
  rw [fails_primary_other (not_exists.mp hx) (not_exists.mp hn) ho] at h
  cases h
  exact .unexpected List.suffix_rfl
  termination_by (ts.length, 0)

theorem fault_arguments {ts err} (h : arguments ts = .error err) : Fault ts err := by
  have hn := next_ne_closing_of_fails_arguments h
  rcases fails_arguments_sum hn h with h | ⟨first, q, tail, hs, h⟩
  · exact fault_sum h
  · have htail : tail.length < ts.length := Nat.lt_of_succ_lt hs.within
    have hsuffix := (List.suffix_cons ⟨.comma, q⟩ tail).trans (used_sum hs).suffix
    exact (fault_arguments h).of_suffix hsuffix
  termination_by (ts.length, 4)

end

end Parser

open SparkTrail.Expr.Parser

/-- A text that is no expression cannot be cut into tokens, or its tokens have a fault. -/
theorem parse_eq_error {text : List Char} {err : Error} (h : parse text = .error err) :
    tokens text = .error err ∨ ∃ ts, tokens text = .ok ts ∧ Fault ts err := by
  unfold parse at h
  cases ht : tokens text with
  | error err' =>
    rw [ht] at h
    cases h
    exact Or.inl rfl
  | ok ts =>
    rw [ht] at h
    refine Or.inr ⟨ts, rfl, ?_⟩
    change (Parser.sequence ts >>= _) = _ at h
    cases hs : Parser.sequence ts with
    | error err' =>
      rw [hs] at h
      cases h
      exact fault_sequence hs
    | ok r =>
      rw [hs] at h
      obtain ⟨e, rest, hr⟩ := r
      have hrest : rest <:+ ts := (used_sequence ⟨hr, hs⟩).suffix
      cases rest with
      | nil => cases h
      | cons t tail =>
        cases h
        exact .unexpected hrest

end SparkTrail.Expr
