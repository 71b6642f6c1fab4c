import SparkTrail.Expr.Parser

/-!
# What each reader of the parser does

`Reads x v rest` says that a reader gave `v` and left `rest`; the bound on the length of `rest` that
every reading carries is left out of the view. Each reader gets one equivalence here, which says all
it can do when it succeeds, and later proofs use these and do not open the readers again.
-/
namespace SparkTrail.Expr

/-- A call takes its first argument, not a number if there is none, and keeps the others. -/
theorem call_unary (f : UnaryFn) (args : List Expr) :
    (Function.unary f).call args =
      .unaryCall f (args.getD 0 (.number nan)) (args.drop 1) := by
  cases args with
  | nil => rfl
  | cons a extra => rfl

/-- A call takes its first two arguments, not a number for each that is missing, and keeps the
others. -/
theorem call_binary (f : BinaryFn) (args : List Expr) :
    (Function.binary f).call args =
      .binaryCall f (args.getD 0 (.number nan)) (args.getD 1 (.number nan)) (args.drop 2) := by
  rcases args with _ | ⟨a, _ | ⟨b, extra⟩⟩
  · rfl
  · rfl
  · rfl

theorem ofItems_of_ne_nil {first : Expr} {more : List Expr} (h : more ≠ []) :
    ofItems first more = .sequence (first :: more) := by
  cases more with
  | nil => exact absurd rfl h
  | cons a more => rfl

theorem isVar_iff {e : Expr} : e.isVar = true ↔ e = .var := by
  cases e <;> simp [isVar]

namespace Parser

open Text (Reading)

variable {α β γ : Type} {m n : Nat} {v : α} {w : β} {u : γ} {e lhs : Expr} {es : List Expr}
  {ts rest : List Token} {p : Nat}

/-- The reader succeeded with the value `v` and left `rest`. -/
def Reads (x : Except Error (Reading Token α n)) (v : α) (rest : List Token) : Prop :=
  ∃ h, x = .ok ⟨v, rest, h⟩

def next (ts : List Token) : Option TokenKind :=
  ts.head?.map (·.kind)

@[simp] theorem next_nil : next [] = none := rfl

@[simp] theorem next_cons (t : Token) : next (t :: ts) = some t.kind := rfl

theorem next_eq_some {k : TokenKind} : next ts = some k ↔ ∃ p tail, ts = ⟨k, p⟩ :: tail := by
  constructor
  · intro h
    rcases ts with _ | ⟨⟨k', p⟩, tail⟩
    · cases h
    · cases h
      exact ⟨p, tail, rfl⟩
  · rintro ⟨p, tail, rfl⟩
    rfl

theorem cons_of_next {k : TokenKind} (h : next ts = some k) :
    ∃ p tail, ts = ⟨k, p⟩ :: tail ∧ tail.length < ts.length := by
  obtain ⟨p, tail, rfl⟩ := next_eq_some.mp h
  exact ⟨p, tail, rfl, Nat.lt_succ_self _⟩

/-- Where the next token is of another kind, no token of this kind comes first. -/
theorem ne_of_next {k : TokenKind} (h : next ts ≠ some k) (p : Nat) (tail : List Token) :
    ts = ⟨k, p⟩ :: tail → False := by
  rintro rfl
  exact h rfl

theorem Reads.within {x : Except Error (Reading Token α n)} (h : Reads x v rest) :
    rest.length < n :=
  h.1

/-- A reader gives one value. -/
theorem Reads.unique {x : Except Error (Reading Token α n)} {v' : α} {rest' : List Token}
    (h : Reads x v rest) (h' : Reads x v' rest') : v = v' := by
  obtain ⟨_, h⟩ := h
  obtain ⟨_, h'⟩ := h'
  rw [h] at h'
  cases h'
  rfl

theorem reads_pure {r : Reading Token α n} :
    Reads (pure r) v rest ↔ v = r.value ∧ rest = r.rest := by
  constructor
  · rintro ⟨_, h⟩
    cases h
    exact ⟨rfl, rfl⟩
  · rintro ⟨rfl, rfl⟩
    exact ⟨r.within, rfl⟩

theorem reads_throw {err : Error} :
    ¬ Reads (throw err : Except Error (Reading Token α n)) v rest := by
  rintro ⟨_, h⟩
  cases h

/-- Two readers after one another succeed with what the second gives on the rest of the first. -/
theorem reads_bind {x : Except Error (Reading Token α m)}
    {f : Reading Token α m → Except Error (Reading Token β n)} :
    Reads (x >>= f) w rest ↔ ∃ v mid h, x = .ok ⟨v, mid, h⟩ ∧ Reads (f ⟨v, mid, h⟩) w rest := by
  cases x with
  | error err =>
    constructor
    · rintro ⟨_, h⟩
      cases h
    · rintro ⟨_, _, _, h, _⟩
      cases h
  | ok r =>
    constructor
    · intro h
      exact ⟨r.value, r.rest, r.within, rfl, h⟩
    · rintro ⟨v, mid, hm, h, hf⟩
      cases h
      exact hf

/-- Two readers after one another, and a value made of both of theirs. -/
theorem reads_both {k : List Token → Nat} {x : Except Error (Reading Token α m)}
    (f : α → (mid : List Token) → Except Error (Reading Token β (k mid))) (g : α → β → γ)
    {hk : (r : Reading Token α m) → (s : Reading Token β (k r.rest)) → s.rest.length < n} :
    Reads (x >>= fun r => f r.value r.rest >>= fun s =>
        pure ⟨g r.value s.value, s.rest, hk r s⟩) u rest ↔
      ∃ v mid w, Reads x v mid ∧ Reads (f v mid) w rest ∧ u = g v w := by
  constructor
  · intro h
    obtain ⟨v, mid, hm, hx, h⟩ := reads_bind.mp h
    obtain ⟨w, last, hl, hf, h⟩ := reads_bind.mp h
    obtain ⟨rfl, rfl⟩ := reads_pure.mp h
    exact ⟨v, mid, w, ⟨hm, hx⟩, ⟨hl, hf⟩, rfl⟩
  · rintro ⟨v, mid, w, ⟨hm, hx⟩, ⟨hl, hf⟩, rfl⟩
    refine reads_bind.mpr ⟨v, mid, hm, hx, ?_⟩
    exact reads_bind.mpr ⟨w, rest, hl, hf, reads_pure.mpr ⟨rfl, rfl⟩⟩

/-- Two readers after one another, the second of which is told the value of the first. -/
theorem reads_chain {k : List Token → Nat} {x : Except Error (Reading Token α m)}
    (f : α → (mid : List Token) → Except Error (Reading Token β (k mid)))
    {hk : (r : Reading Token α m) → k r.rest ≤ n} :
    Reads (x >>= fun r => f r.value r.rest >>= fun s => pure (s.widen (hk r))) w rest ↔
      ∃ v mid, Reads x v mid ∧ Reads (f v mid) w rest := by
  refine (reads_both f fun _ w => w).trans ?_
  constructor
  · rintro ⟨v, mid, w, hx, hf, rfl⟩
    exact ⟨v, mid, hx, hf⟩
  · rintro ⟨v, mid, hx, hf⟩
    exact ⟨v, mid, w, hx, hf, rfl⟩

theorem reads_closing {a : Unit} :
    Reads (closing p ts) a rest ↔ ∃ q, ts = ⟨.closing, q⟩ :: rest := by
  constructor
  · rintro ⟨_, h⟩
    unfold closing at h
    split at h
    · cases h
    · cases h
      exact ⟨_, rfl⟩
    · cases h
  · rintro ⟨q, rfl⟩
    exact ⟨Nat.lt_succ_self _, rfl⟩

theorem reads_steps_stop (h : ∀ s, next ts ≠ some (.step s)) :
    Reads (steps lhs ts) e rest ↔ e = lhs ∧ rest = ts := by
  rw [steps.eq_2 lhs ts fun s => ne_of_next (h s)]
  exact reads_pure

theorem not_reads_steps {s : Step} (h : lhs ≠ .var) :
    ¬ Reads (steps lhs (⟨.step s, p⟩ :: ts)) e rest := by
  rw [steps.eq_1, if_neg (mt isVar_iff.mp h)]
  exact reads_throw

/-- The first step makes a value that is not the variable, so there is no second one. -/
theorem reads_steps_step {s : Step} : Reads (steps lhs (⟨.step s, p⟩ :: ts)) e rest ↔
    lhs = .var ∧ (∀ s', next ts ≠ some (.step s')) ∧ e = .update s .after ∧ rest = ts := by
  by_cases hv : lhs = .var
  · subst hv
    rw [steps.eq_1, if_pos (isVar_iff.mpr rfl), reads_bind]
    constructor
    · rintro ⟨e', mid, hm, hs, h⟩
      obtain ⟨rfl, rfl⟩ := reads_pure.mp h
      have hr : Reads (steps (.update s .after) ts) e rest := ⟨hm, hs⟩
      have hn : ∀ s', next ts ≠ some (.step s') := by
        intro s' hs'
        obtain ⟨q, tail, rfl⟩ := next_eq_some.mp hs'
        exact not_reads_steps (by simp) hr
      obtain ⟨rfl, rfl⟩ := (reads_steps_stop hn).mp hr
      exact ⟨rfl, hn, rfl, rfl⟩
    · rintro ⟨_, hn, rfl, rfl⟩
      have hr : Reads (steps (.update s .after) rest) (.update s .after) rest :=
        (reads_steps_stop hn).mpr ⟨rfl, rfl⟩
      obtain ⟨hm, hs⟩ := hr
      exact ⟨_, _, hm, hs, reads_pure.mpr ⟨rfl, rfl⟩⟩
  · constructor
    · intro h
      exact absurd h (not_reads_steps hv)
    · rintro ⟨hv', _⟩
      exact absurd hv' hv

theorem reads_sequence : Reads (sequence ts) e rest ↔
    ∃ first mid more, Reads (sum ts) first mid ∧ Reads (sequenceRest mid) more rest ∧
      e = ofItems first more := by
  rw [Parser.sequence]
  exact reads_both (fun _ mid => sequenceRest mid) ofItems

theorem reads_sequenceRest_comma : Reads (sequenceRest (⟨.comma, p⟩ :: ts)) es rest ↔
    ∃ item mid more, Reads (sum ts) item mid ∧ Reads (sequenceRest mid) more rest ∧
      es = item :: more := by
  rw [sequenceRest.eq_1]
  exact reads_both (fun _ mid => sequenceRest mid) List.cons

theorem reads_sequenceRest_stop (h : next ts ≠ some .comma) :
    Reads (sequenceRest ts) es rest ↔ es = [] ∧ rest = ts := by
  rw [sequenceRest.eq_2 ts (ne_of_next h)]
  exact reads_pure

theorem reads_sum : Reads (sum ts) e rest ↔
    ∃ first mid, Reads (product ts) first mid ∧ Reads (sumRest first mid) e rest := by
  rw [Parser.sum]
  exact reads_chain fun first mid => sumRest first mid

theorem reads_sumRest_plus : Reads (sumRest lhs (⟨.plus, p⟩ :: ts)) e rest ↔
    ∃ rhs mid, Reads (product ts) rhs mid ∧ Reads (sumRest (.binary .add lhs rhs) mid) e rest := by
  rw [sumRest.eq_1]
  exact reads_chain fun rhs mid => sumRest (.binary .add lhs rhs) mid

theorem reads_sumRest_minus : Reads (sumRest lhs (⟨.minus, p⟩ :: ts)) e rest ↔
    ∃ rhs mid, Reads (product ts) rhs mid ∧ Reads (sumRest (.binary .sub lhs rhs) mid) e rest := by
  rw [sumRest.eq_2]
  exact reads_chain fun rhs mid => sumRest (.binary .sub lhs rhs) mid

theorem reads_sumRest_stop (hp : next ts ≠ some .plus) (hm : next ts ≠ some .minus) :
    Reads (sumRest lhs ts) e rest ↔ e = lhs ∧ rest = ts := by
  rw [sumRest.eq_3 lhs ts (ne_of_next hp) (ne_of_next hm)]
  exact reads_pure

theorem reads_product : Reads (product ts) e rest ↔
    ∃ first mid, Reads (signed ts) first mid ∧ Reads (productRest first mid) e rest := by
  rw [Parser.product]
  exact reads_chain fun first mid => productRest first mid

theorem reads_productRest_star : Reads (productRest lhs (⟨.star, p⟩ :: ts)) e rest ↔
    ∃ rhs mid, Reads (signed ts) rhs mid ∧
      Reads (productRest (.binary .mul lhs rhs) mid) e rest := by
  rw [productRest.eq_1]
  exact reads_chain fun rhs mid => productRest (.binary .mul lhs rhs) mid

theorem reads_productRest_slash : Reads (productRest lhs (⟨.slash, p⟩ :: ts)) e rest ↔
    ∃ rhs mid, Reads (signed ts) rhs mid ∧
      Reads (productRest (.binary .div lhs rhs) mid) e rest := by
  rw [productRest.eq_2]
  exact reads_chain fun rhs mid => productRest (.binary .div lhs rhs) mid

theorem reads_productRest_stop (hm : next ts ≠ some .star) (hd : next ts ≠ some .slash) :
    Reads (productRest lhs ts) e rest ↔ e = lhs ∧ rest = ts := by
  rw [productRest.eq_3 lhs ts (ne_of_next hm) (ne_of_next hd)]
  exact reads_pure

/-- A value made of what one reader gave. -/
theorem reads_map {x : Except Error (Reading Token α m)} (g : α → β) (hk : m ≤ n) :
    Reads (x >>= fun r => pure ((r.map g).widen hk)) w rest ↔ ∃ v, Reads x v rest ∧ w = g v := by
  rw [reads_bind]
  constructor
  · rintro ⟨v, mid, hm, hx, h⟩
    obtain ⟨rfl, rfl⟩ := reads_pure.mp h
    exact ⟨v, ⟨hm, hx⟩, rfl⟩
  · rintro ⟨v, ⟨hm, hx⟩, rfl⟩
    exact ⟨v, rest, hm, hx, reads_pure.mpr ⟨rfl, rfl⟩⟩

theorem reads_signed_minus : Reads (signed (⟨.minus, p⟩ :: ts)) e rest ↔
    ∃ operand, Reads (signed ts) operand rest ∧ e = .negate operand := by
  rw [signed.eq_1]
  exact reads_map Expr.negate (Nat.le_succ _)

theorem reads_signed_plus :
    Reads (signed (⟨.plus, p⟩ :: ts)) e rest ↔ Reads (signed ts) e rest := by
  rw [signed.eq_2]
  refine (reads_map id (Nat.le_succ _)).trans ?_
  simp

/-- A step before an operand is read where the operand is the variable. -/
theorem reads_signed_step {s : Step} : Reads (signed (⟨.step s, p⟩ :: ts)) e rest ↔
    Reads (signed ts) .var rest ∧ e = .update s .before := by
  rw [signed.eq_3, reads_bind]
  constructor
  · rintro ⟨operand, mid, hm, hs, h⟩
    by_cases hv : operand = .var
    · rw [if_pos (isVar_iff.mpr hv)] at h
      obtain ⟨rfl, rfl⟩ := reads_pure.mp h
      exact ⟨⟨hm, hv ▸ hs⟩, rfl⟩
    · rw [if_neg (mt isVar_iff.mp hv)] at h
      exact absurd h reads_throw
  · rintro ⟨⟨hm, hs⟩, rfl⟩
    exact ⟨.var, rest, hm, hs, reads_pure.mpr ⟨rfl, rfl⟩⟩

theorem reads_signed_stepped (hp : next ts ≠ some .plus) (hm : next ts ≠ some .minus)
    (hs : ∀ s, next ts ≠ some (.step s)) : Reads (signed ts) e rest ↔
    ∃ operand mid, Reads (primary ts) operand mid ∧ Reads (steps operand mid) e rest := by
  rw [signed.eq_4 ts (ne_of_next hm) (ne_of_next hp) fun s => ne_of_next (hs s)]
  exact reads_chain fun operand mid => steps operand mid

theorem reads_primary_number {x : Float} : Reads (primary (⟨.number x, p⟩ :: ts)) e rest ↔
    e = .number x ∧ rest = ts := by
  rw [primary.eq_1]
  exact reads_pure

/-- A name has a value of its own if it is that of the variable or of a constant. -/
theorem meaning?_eq_value {name : String} : meaning? name = some (.value e) ↔
    (name = "x" ∧ e = .var) ∨ ∃ c, Builtin.lookup? name = some (.constant c) ∧ e = .constant c := by
  unfold meaning?
  by_cases hx : name = "x"
  · subst hx
    have hl : Builtin.lookup? "x" = none := rfl
    simp [hl, eq_comm]
  · rw [if_neg hx, Option.map_eq_some_iff]
    constructor
    · rintro ⟨b, hb, h⟩
      cases b with
      | constant c =>
        cases h
        exact Or.inr ⟨c, hb, rfl⟩
      | function f => cases h
    · rintro (⟨h, -⟩ | ⟨c, hc, rfl⟩)
      · exact absurd h hx
      · exact ⟨_, hc, rfl⟩

theorem meaning?_eq_function {name : String} {f : Function} :
    meaning? name = some (.function f) ↔ Builtin.lookup? name = some (.function f) := by
  unfold meaning?
  by_cases hx : name = "x"
  · subst hx
    have hl : Builtin.lookup? "x" = none := rfl
    simp [hl]
  · rw [if_neg hx, Option.map_eq_some_iff]
    constructor
    · rintro ⟨b, hb, h⟩
      cases b with
      | constant c => cases h
      | function f =>
        cases h
        exact hb
    · intro hf
      exact ⟨_, hf, rfl⟩

theorem reads_primary_value {name : String} {e' : Expr} (hm : meaning? name = some (.value e'))
    (hn : next ts ≠ some .opening) : Reads (primary (⟨.name name, p⟩ :: ts)) e rest ↔
      e = e' ∧ rest = ts := by
  rw [primary.eq_2, hm]
  rcases ts with _ | ⟨⟨k, q⟩, tail⟩
  · exact reads_pure
  · cases k with
    | opening => exact absurd rfl hn
    | _ => exact reads_pure

/-- A call takes the arguments up to its closing parenthesis. -/
theorem reads_primary_call {name : String} {f : Function} {q : Nat}
    (hm : meaning? name = some (.function f)) :
    Reads (primary (⟨.name name, p⟩ :: ⟨.opening, q⟩ :: ts)) e rest ↔
      ∃ args q', Reads (arguments ts) args (⟨.closing, q'⟩ :: rest) ∧ e = f.call args := by
  rw [primary.eq_2, hm]
  refine (reads_both (fun _ mid => closing q mid) fun args _ => f.call args).trans ?_
  constructor
  · rintro ⟨args, mid, _, ha, hc, rfl⟩
    obtain ⟨q', rfl⟩ := reads_closing.mp hc
    exact ⟨args, q', ha, rfl⟩
  · rintro ⟨args, q', ha, rfl⟩
    exact ⟨args, _, (), ha, reads_closing.mpr ⟨q', rfl⟩, rfl⟩

/-- A name with a value of its own stands alone, and a function's name stands before its
arguments. -/
theorem primary_name_cases {name : String}
    (h : Reads (primary (⟨.name name, p⟩ :: ts)) e rest) :
    (meaning? name = some (.value e) ∧ rest = ts) ∨
      ∃ f q inner, meaning? name = some (.function f) ∧ ts = ⟨.opening, q⟩ :: inner := by
  have h' := h
  rw [primary.eq_2] at h'
  cases hm : meaning? name with
  | none =>
    rw [hm] at h'
    exact absurd h' reads_throw
  | some meaning =>
    cases meaning with
    | value e' =>
      by_cases hn : next ts = some .opening
      · obtain ⟨q, inner, rfl⟩ := next_eq_some.mp hn
        rw [hm] at h'
        exact absurd h' reads_throw
      · obtain ⟨rfl, rfl⟩ := (reads_primary_value hm hn).mp h
        exact Or.inl ⟨rfl, rfl⟩
    | function f =>
      by_cases hn : next ts = some .opening
      · obtain ⟨q, inner, rfl⟩ := next_eq_some.mp hn
        exact Or.inr ⟨f, q, inner, rfl, rfl⟩
      · rw [hm] at h'
        rcases ts with _ | ⟨⟨k, q⟩, tail⟩
        · exact absurd h' reads_throw
        · cases k with
          | opening => exact absurd rfl hn
          | _ => exact absurd h' reads_throw

theorem reads_primary_group : Reads (primary (⟨.opening, p⟩ :: ts)) e rest ↔
    ∃ q, Reads (sequence ts) e (⟨.closing, q⟩ :: rest) := by
  rw [primary.eq_3]
  refine (reads_both (fun _ mid => closing p mid) fun e _ => e).trans ?_
  constructor
  · rintro ⟨inner, mid, _, hs, hc, rfl⟩
    obtain ⟨q, rfl⟩ := reads_closing.mp hc
    exact ⟨q, hs⟩
  · rintro ⟨q, hs⟩
    exact ⟨e, _, (), hs, reads_closing.mpr ⟨q, rfl⟩, rfl⟩

/-- What an operand without signs and steps can start with. -/
theorem next_of_reads_primary (h : Reads (primary ts) e rest) :
    (∃ x, next ts = some (.number x)) ∨ (∃ name, next ts = some (.name name)) ∨
      next ts = some .opening := by
  rcases ts with _ | ⟨⟨k, p⟩, tail⟩
  · rw [primary.eq_4 [] (by simp) (by simp) (by simp)] at h
    exact absurd h reads_throw
  · cases k with
    | number x => exact Or.inl ⟨x, rfl⟩
    | name name => exact Or.inr (Or.inl ⟨name, rfl⟩)
    | opening => exact Or.inr (Or.inr rfl)
    | _ =>
      rw [primary.eq_4 _ (by simp) (by simp) (by simp)] at h
      exact absurd h reads_throw

theorem not_sign_of_reads_primary (h : Reads (primary ts) e rest) :
    next ts ≠ some .plus ∧ next ts ≠ some .minus ∧ ∀ s, next ts ≠ some (.step s) := by
  rcases next_of_reads_primary h with ⟨x, hn⟩ | ⟨name, hn⟩ | hn <;> simp [hn]

theorem reads_arguments_closing (h : next ts = some .closing) :
    Reads (arguments ts) es rest ↔ es = [] ∧ rest = ts := by
  obtain ⟨q, tail, rfl⟩ := next_eq_some.mp h
  rw [arguments.eq_1]
  exact reads_pure

/-- After an argument comes a comma and what arguments are left, or no comma and nothing more. -/
theorem reads_arguments_sum (h : next ts ≠ some .closing) : Reads (arguments ts) es rest ↔
    ∃ first mid, Reads (sum ts) first mid ∧
      ((∃ q tail more, mid = ⟨.comma, q⟩ :: tail ∧ Reads (arguments tail) more rest ∧
          es = first :: more) ∨
        (next mid ≠ some .comma ∧ es = [first] ∧ rest = mid)) := by
  rw [arguments.eq_2 ts (ne_of_next h), reads_bind]
  constructor
  · rintro ⟨first, mid, hm, hs, h⟩
    refine ⟨first, mid, ⟨hm, hs⟩, ?_⟩
    rcases mid with _ | ⟨⟨k, q⟩, tail⟩
    · obtain ⟨rfl, rfl⟩ := reads_pure.mp h
      exact Or.inr ⟨by simp, rfl, rfl⟩
    · cases k with
      | comma =>
        obtain ⟨more, mid', hm', ha, h⟩ := reads_bind.mp h
        obtain ⟨rfl, rfl⟩ := reads_pure.mp h
        exact Or.inl ⟨q, tail, more, rfl, ⟨hm', ha⟩, rfl⟩
      | _ =>
        obtain ⟨rfl, rfl⟩ := reads_pure.mp h
        exact Or.inr ⟨by simp, rfl, rfl⟩
  · rintro ⟨first, mid, ⟨hm, hs⟩, ⟨q, tail, more, rfl, ⟨hm', ha⟩, rfl⟩ | ⟨hn, rfl, rfl⟩⟩
    · refine ⟨first, _, hm, hs, ?_⟩
      exact reads_bind.mpr ⟨more, rest, hm', ha, reads_pure.mpr ⟨rfl, rfl⟩⟩
    · refine ⟨first, _, hm, hs, ?_⟩
      rcases rest with _ | ⟨⟨k, q⟩, tail⟩
      · exact reads_pure.mpr ⟨rfl, rfl⟩
      · cases k with
        | comma => exact absurd rfl hn
        | _ => exact reads_pure.mpr ⟨rfl, rfl⟩

/-- The text stands for an expression where a sequence takes up all its tokens. -/
theorem parse_eq_ok {text : List Char} : parse text = .ok e ↔
    ∃ ts, tokens text = .ok ts ∧ Reads (sequence ts) e [] := by
  unfold parse
  cases ht : tokens text with
  | error err => simp [bind, Except.bind]
  | ok ts =>
    constructor
    · intro h
      change (sequence ts >>= _) = _ at h
      cases hs : sequence ts with
      | error err =>
        rw [hs] at h
        cases h
      | ok r =>
        rw [hs] at h
        obtain ⟨v, rest, hr⟩ := r
        cases rest with
        | nil =>
          cases h
          exact ⟨ts, rfl, hr, hs⟩
        | cons t tail => cases h
    · rintro ⟨ts', h, hm, hs⟩
      cases h
      show (sequence ts >>= _) = _
      rw [hs]
      rfl

end Parser

end SparkTrail.Expr
