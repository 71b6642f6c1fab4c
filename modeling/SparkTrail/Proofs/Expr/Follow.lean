import SparkTrail.Proofs.Expr.Cursor

/-!
# Routines over a cursor follow the readers

Wherever a routine may be called it does not stall, and does what the reader does with the tokens
that are left. What carries the induction is when it may be called: eight are allowed for each token
that is left, and its rank among those that are called where none is used up in between; and every
call that is going on was made before, or is of a routine of a higher rank.
-/
namespace SparkTrail.Expr

open Text (Reading)

namespace Parser

def stepped (ts : List Token) : Parsed Expr ts.length := do
  let operand ← primary ts
  let r ← steps operand.value operand.rest
  return r.widen (by have := operand.within; omega)

def callArguments (position : Nat) (ts : List Token) : Parsed (List Expr) ts.length := do
  let args ← arguments ts
  let close ← closing position args.rest
  return ⟨args.value, close.rest, by have := args.within; have := close.within; omega⟩

theorem reads_callArguments {p : Nat} {ts rest : List Token} {es : List Expr} :
    Reads (callArguments p ts) es rest ↔ ∃ q, Reads (arguments ts) es (⟨.closing, q⟩ :: rest) := by
  refine (reads_both (fun _ mid => closing p mid) fun args _ => args).trans ?_
  constructor
  · rintro ⟨args, mid, _, hargs, hclose, rfl⟩
    obtain ⟨q, rfl⟩ := reads_closing.mp hclose
    exact ⟨q, hargs⟩
  · rintro ⟨q, hargs⟩
    exact ⟨es, _, (), hargs, reads_closing.mpr ⟨q, rfl⟩, rfl⟩

def identifier (name : String) (ts : List Token) : Parsed Expr (ts.length + 1) :=
  match meaning? name, ts with
  | none, _ => throw (.unknownName name)
  | some (.value _), ⟨.opening, _⟩ :: _ => throw (.notCallable name)
  | some (.value e), rest => return ⟨e, rest, Nat.lt_succ_self _⟩
  | some (.function f), ⟨.opening, position⟩ :: inner => do
    let args ← callArguments position inner
    return ⟨f.call args.value, args.rest, Nat.lt_succ_of_lt (Nat.lt_succ_of_lt args.within)⟩
  | some (.function _), _ => throw (.missingCall name)

/-- What is read behind a name depends on the name alone, not on where it stands. -/
theorem primary_name (name : String) (p : Nat) (ts : List Token) :
    primary (⟨.name name, p⟩ :: ts) = identifier name ts := by
  rw [primary.eq_2, identifier.eq_def]
  rcases meaning? name with _ | e | f
  · rfl
  · rcases ts with _ | ⟨⟨k, q⟩, inner⟩
    · rfl
    · cases k <;> rfl
  · rcases ts with _ | ⟨⟨k, q⟩, inner⟩
    · rfl
    · cases k with
      | opening =>
        show (arguments inner >>= _) = (callArguments q inner >>= _)
        rw [callArguments]
        cases arguments inner with
        | error err => rfl
        | ok args =>
          show (closing q args.rest >>= _) = ((closing q args.rest >>= _) >>= _)
          cases closing q args.rest <;> rfl
      | _ => rfl

end Parser

namespace Cursor

open SparkTrail.Expr.Parser Walk

variable {α β : Type} {m n p allowance : Nat} {r r' : Routine} {calls : List Call}
  {ts rest rest' : List Token} {t : Token} {e : Expr} {name : String}

/-- How far a routine is from using up a token: those that it calls before stand lower. -/
def Routine.rank : Routine → Nat
  | .arguments => 7
  | .sequence => 6
  | .furtherArguments => 6
  | .sum => 5
  | .product => 4
  | .signed => 3
  | .stepped => 2
  | _ => 1

theorem Routine.rank_pos (r : Routine) : 0 < r.rank := by
  cases r <;> decide

theorem Routine.rank_le (r : Routine) : r.rank ≤ 7 := by
  cases r <;> decide

/-- A routine may be called where `rest` is left: what is allowed for is enough, and every call that
is going on was made before or is of a routine that stands higher. -/
structure Fits (ts : List Token) (allowance : Nat) (calls : List Call) (r : Routine)
    (rest : List Token) : Prop where
  left : rest <:+ ts
  allowed : 8 * rest.length + r.rank ≤ allowance
  earlier : ∀ call ∈ calls, call.place < place ts rest ∨
    call.place = place ts rest ∧ r.rank < call.routine.rank

/-- Reading where `rest` is left does what the reader does, and leaves what the reader leaves. -/
def Follows (ts : List Token) (walk : Walk α) (rest : List Token) (x : Parsed α n) : Prop :=
  walk (place ts rest) = .ok (x.map fun r => (r.value, place ts r.rest)) ∧
    ∀ r, x = .ok r → r.rest <:+ ts

/-- Reading may go on where less is left, or with a routine that stands lower. -/
theorem Fits.call (h : Fits ts (allowance + 1) calls r rest) (hleft : rest' <:+ ts)
    (hnext : rest'.length < rest.length ∨ rest' = rest ∧ r'.rank < r.rank) :
    Fits ts allowance (⟨r, place ts rest⟩ :: calls) r' rest' := by
  have hrank := r'.rank_le
  have hlong := h.left.length_le
  have hallowed := h.allowed
  constructor
  · exact hleft
  · rcases hnext with hless | ⟨rfl, hlower⟩ <;> omega
  · intro call hcall
    unfold place
    rcases List.mem_cons.mp hcall with rfl | hcall
    · rcases hnext with hless | ⟨rfl, hlower⟩
      · exact .inl (Nat.sub_lt_sub_left (by omega) hless)
      · exact .inr ⟨rfl, hlower⟩
    · -- calls that were going on before stay behind, as the place never goes back
      have hearlier := h.earlier call hcall
      unfold place at hearlier
      rcases hnext with hless | ⟨rfl, hlower⟩ <;> omega

theorem Fits.lower (h : Fits ts (allowance + 1) calls r rest) (hlower : r'.rank < r.rank) :
    Fits ts allowance (⟨r, place ts rest⟩ :: calls) r' rest :=
  h.call h.left (.inr ⟨rfl, hlower⟩)

theorem Fits.less (h : Fits ts (allowance + 1) calls r rest) (hleft : rest' <:+ ts)
    (hless : rest'.length < rest.length) :
    Fits ts allowance (⟨r, place ts rest⟩ :: calls) r' rest' :=
  h.call hleft (.inl hless)

/-- Where a token is used up every routine may be called. -/
theorem Fits.tail (h : Fits ts (allowance + 1) calls r (t :: rest)) :
    Fits ts allowance (⟨r, place ts (t :: rest)⟩ :: calls) r' rest :=
  h.less ((List.suffix_cons t rest).trans h.left) (Nat.lt_succ_self _)

/-- A routine that may be called does not stop when it begins. -/
theorem enter_eq (h : Fits ts allowance calls r rest) :
    enter r calls (place ts rest) = .ok (.ok (⟨r, place ts rest⟩ :: calls, place ts rest)) := by
  refine if_pos (List.all_eq_true.mpr fun call hcall => ?_)
  rw [Bool.or_eq_true, bne_iff_ne, decide_eq_true_iff]
  rcases h.earlier call hcall with hbefore | ⟨-, hhigher⟩
  · exact .inr hbefore
  · refine .inl fun hsame => ?_
    rw [hsame] at hhigher
    exact Nat.lt_irrefl _ hhigher

theorem Follows.enter {walk : List Call → Walk α} {x : Parsed α n}
    (hfits : Fits ts allowance calls r rest)
    (h : Follows ts (walk (⟨r, place ts rest⟩ :: calls)) rest x) :
    Follows ts (Cursor.enter r calls >>= walk) rest x :=
  ⟨(bind_of_ok (enter_eq hfits)).trans h.1, h.2⟩

theorem Follows.peek {walk : Option Token → Walk α} {x : Parsed α n} (hleft : rest <:+ ts)
    (h : Follows ts (walk rest.head?) rest x) :
    Follows ts (Cursor.peek (tape ts) >>= walk) rest x :=
  ⟨(bind_of_ok (peek_eq hleft)).trans h.1, h.2⟩

theorem Follows.advance {walk : Option Token → Walk α} {x : Parsed α n} (hleft : rest <:+ ts)
    (h : Follows ts (walk rest.head?) rest.tail x) :
    Follows ts (Cursor.advance (tape ts) >>= walk) rest x :=
  ⟨(bind_of_ok (advance_eq hleft)).trans h.1, h.2⟩

theorem Follows.pure {v : α} {hless : rest.length < n} (hleft : rest <:+ ts) :
    Follows ts (Pure.pure v) rest (Pure.pure ⟨v, rest, hless⟩) := by
  refine ⟨rfl, ?_⟩
  rintro r heq
  cases heq
  exact hleft

theorem Follows.fail {err : Error} :
    Follows ts (Walk.fail err : Walk α) rest (throw err : Parsed α n) :=
  ⟨rfl, fun r heq => by cases heq⟩

/-- One after another, routines do what the readers do one after another. -/
theorem Follows.bind {walk : Walk α} {x : Parsed α m} {next : α → Walk β}
    {f : Reading Token α m → Parsed β n} (h : Follows ts walk rest x)
    (hnext : ∀ r, r.rest <:+ ts → Follows ts (next r.value) r.rest (f r)) :
    Follows ts (walk >>= next) rest (x >>= f) := by
  obtain ⟨hwalk, hleft⟩ := h
  cases x with
  | error err => exact ⟨bind_of_error hwalk, fun r heq => by cases heq⟩
  | ok r =>
    obtain ⟨hnext, hbehind⟩ := hnext r (hleft r rfl)
    exact ⟨(bind_of_ok hwalk).trans hnext, hbehind⟩

theorem Follows.widen {walk : Walk α} {x : Parsed α m} {h : m ≤ n} (hx : Follows ts walk rest x) :
    Follows ts walk rest (x >>= fun r => Pure.pure (r.widen h)) := by
  obtain ⟨hwalk, hleft⟩ := hx
  cases x with
  | error err => exact ⟨hwalk, fun r heq => by cases heq⟩
  | ok r =>
    refine ⟨hwalk, ?_⟩
    rintro s heq
    cases heq
    exact hleft r rfl

/-- A closing parenthesis is found or missed as the reader does it. -/
theorem follows_close (hleft : rest <:+ ts) :
    Follows ts (close (tape ts) p) rest (closing p rest) := by
  refine .advance hleft ?_
  rcases rest with _ | ⟨⟨k, q⟩, tail⟩
  · exact .fail
  · cases k with
    | closing => exact .pure ((List.suffix_cons _ _).trans hleft)
    | _ => exact .fail

/-- Wherever a routine may be called it follows a reader. -/
def Agrees (ts : List Token) (allowance : Nat) (r : Routine) {k : List Token → Nat}
    (walk : List Call → Walk α) (read : (rest : List Token) → Parsed α (k rest)) : Prop :=
  ∀ {calls rest}, Fits ts allowance calls r rest → Follows ts (walk calls) rest (read rest)

structure Agree (ts : List Token) (allowance : Nat) : Prop where
  sequence : Agrees ts allowance .sequence (sequence (tape ts) allowance) Parser.sequence
  furtherItems : Agrees ts allowance .furtherItems (furtherItems (tape ts) allowance) sequenceRest
  sum : Agrees ts allowance .sum (sum (tape ts) allowance) Parser.sum
  furtherTerms (e : Expr) :
    Agrees ts allowance .furtherTerms (furtherTerms (tape ts) e allowance) (sumRest e)
  product : Agrees ts allowance .product (product (tape ts) allowance) Parser.product
  furtherFactors (e : Expr) :
    Agrees ts allowance .furtherFactors (furtherFactors (tape ts) e allowance) (productRest e)
  signed : Agrees ts allowance .signed (signed (tape ts) allowance) Parser.signed
  stepped : Agrees ts allowance .stepped (stepped (tape ts) allowance) Parser.stepped
  furtherSteps (e : Expr) :
    Agrees ts allowance .furtherSteps (furtherSteps (tape ts) e allowance) (steps e)
  primary : Agrees ts allowance .primary (primary (tape ts) allowance) Parser.primary
  identifier (name : String) :
    Agrees ts allowance .identifier (identifier (tape ts) name allowance) (Parser.identifier name)
  arguments (p : Nat) :
    Agrees ts allowance .arguments (arguments (tape ts) p allowance) (callArguments p)
  furtherArguments :
    Agrees ts allowance .furtherArguments (furtherArguments (tape ts) allowance) Parser.arguments

theorem agrees_sequence (h : Agree ts allowance) :
    Agrees ts (allowance + 1) .sequence (sequence (tape ts) (allowance + 1)) Parser.sequence := by
  intro calls rest hfits
  rw [Cursor.sequence, Parser.sequence]
  refine .enter hfits ?_
  refine (h.sum (hfits.lower (by decide))).bind fun first hfirst => ?_
  refine (h.furtherItems (hfits.less hfirst first.within)).bind fun more hmore => ?_
  exact .pure hmore

theorem agrees_furtherItems (h : Agree ts allowance) :
    Agrees ts (allowance + 1) .furtherItems (furtherItems (tape ts) (allowance + 1))
      sequenceRest := by
  intro calls rest hfits
  rw [Cursor.furtherItems]
  refine .enter hfits (.peek hfits.left ?_)
  split
  case h_1 p hhead =>
    obtain ⟨tail, rfl⟩ := List.head?_eq_some_iff.mp hhead
    rw [sequenceRest.eq_1]
    refine .advance hfits.left ?_
    refine (h.sum hfits.tail).bind fun item hitem => ?_
    refine (h.furtherItems (hfits.less hitem (Nat.lt_succ_of_lt item.within))).bind
      fun more hmore => ?_
    exact .pure hmore
  case h_2 hother =>
    rw [sequenceRest.eq_2 rest fun p tail heq => hother p (heq ▸ rfl)]
    exact .pure hfits.left

theorem agrees_sum (h : Agree ts allowance) :
    Agrees ts (allowance + 1) .sum (sum (tape ts) (allowance + 1)) Parser.sum := by
  intro calls rest hfits
  rw [Cursor.sum, Parser.sum]
  refine .enter hfits ?_
  refine (h.product (hfits.lower (by decide))).bind fun first hfirst => ?_
  exact (h.furtherTerms _ (hfits.less hfirst first.within)).widen

theorem agrees_furtherTerms (h : Agree ts allowance) (e : Expr) :
    Agrees ts (allowance + 1) .furtherTerms (furtherTerms (tape ts) e (allowance + 1))
      (sumRest e) := by
  intro calls rest hfits
  rw [Cursor.furtherTerms]
  refine .enter hfits (.peek hfits.left ?_)
  split
  case h_1 p hhead =>
    obtain ⟨tail, rfl⟩ := List.head?_eq_some_iff.mp hhead
    rw [sumRest.eq_1]
    refine .advance hfits.left ?_
    refine (h.product hfits.tail).bind fun rhs hrhs => ?_
    exact (h.furtherTerms _ (hfits.less hrhs (Nat.lt_succ_of_lt rhs.within))).widen
  case h_2 p hhead =>
    obtain ⟨tail, rfl⟩ := List.head?_eq_some_iff.mp hhead
    rw [sumRest.eq_2]
    refine .advance hfits.left ?_
    refine (h.product hfits.tail).bind fun rhs hrhs => ?_
    exact (h.furtherTerms _ (hfits.less hrhs (Nat.lt_succ_of_lt rhs.within))).widen
  case h_3 hplus hminus =>
    rw [sumRest.eq_3 e rest (fun p tail heq => hplus p (heq ▸ rfl))
      fun p tail heq => hminus p (heq ▸ rfl)]
    exact .pure hfits.left

theorem agrees_product (h : Agree ts allowance) :
    Agrees ts (allowance + 1) .product (product (tape ts) (allowance + 1)) Parser.product := by
  intro calls rest hfits
  rw [Cursor.product, Parser.product]
  refine .enter hfits ?_
  refine (h.signed (hfits.lower (by decide))).bind fun first hfirst => ?_
  exact (h.furtherFactors _ (hfits.less hfirst first.within)).widen

theorem agrees_furtherFactors (h : Agree ts allowance) (e : Expr) :
    Agrees ts (allowance + 1) .furtherFactors (furtherFactors (tape ts) e (allowance + 1))
      (productRest e) := by
  intro calls rest hfits
  rw [Cursor.furtherFactors]
  refine .enter hfits (.peek hfits.left ?_)
  split
  case h_1 p hhead =>
    obtain ⟨tail, rfl⟩ := List.head?_eq_some_iff.mp hhead
    rw [productRest.eq_1]
    refine .advance hfits.left ?_
    refine (h.signed hfits.tail).bind fun rhs hrhs => ?_
    exact (h.furtherFactors _ (hfits.less hrhs (Nat.lt_succ_of_lt rhs.within))).widen
  case h_2 p hhead =>
    obtain ⟨tail, rfl⟩ := List.head?_eq_some_iff.mp hhead
    rw [productRest.eq_2]
    refine .advance hfits.left ?_
    refine (h.signed hfits.tail).bind fun rhs hrhs => ?_
    exact (h.furtherFactors _ (hfits.less hrhs (Nat.lt_succ_of_lt rhs.within))).widen
  case h_3 hstar hslash =>
    rw [productRest.eq_3 e rest (fun p tail heq => hstar p (heq ▸ rfl))
      fun p tail heq => hslash p (heq ▸ rfl)]
    exact .pure hfits.left

theorem agrees_signed (h : Agree ts allowance) :
    Agrees ts (allowance + 1) .signed (signed (tape ts) (allowance + 1)) Parser.signed := by
  intro calls rest hfits
  rw [Cursor.signed]
  refine .enter hfits (.peek hfits.left ?_)
  split
  case h_1 p hhead =>
    obtain ⟨tail, rfl⟩ := List.head?_eq_some_iff.mp hhead
    rw [Parser.signed.eq_1]
    refine .advance hfits.left ?_
    refine (h.signed hfits.tail).bind fun operand hoperand => ?_
    exact .pure hoperand
  case h_2 p hhead =>
    obtain ⟨tail, rfl⟩ := List.head?_eq_some_iff.mp hhead
    rw [Parser.signed.eq_2]
    refine .advance hfits.left ?_
    exact (h.signed hfits.tail).widen
  case h_3 s p hhead =>
    obtain ⟨tail, rfl⟩ := List.head?_eq_some_iff.mp hhead
    rw [Parser.signed.eq_3]
    refine .advance hfits.left ?_
    refine (h.signed hfits.tail).bind fun operand hoperand => ?_
    cases operand.value.isVar with
    | true => exact .pure hoperand
    | false => exact .fail
  case h_4 hminus hplus hstep =>
    rw [Parser.signed.eq_4 rest (fun p tail heq => hminus p (heq ▸ rfl))
      (fun p tail heq => hplus p (heq ▸ rfl)) fun s p tail heq => hstep s p (heq ▸ rfl)]
    exact h.stepped (hfits.lower (by decide))

theorem agrees_stepped (h : Agree ts allowance) :
    Agrees ts (allowance + 1) .stepped (stepped (tape ts) (allowance + 1)) Parser.stepped := by
  intro calls rest hfits
  rw [Cursor.stepped, Parser.stepped]
  refine .enter hfits ?_
  refine (h.primary (hfits.lower (by decide))).bind fun operand hoperand => ?_
  exact (h.furtherSteps _ (hfits.less hoperand operand.within)).widen

theorem agrees_furtherSteps (h : Agree ts allowance) (e : Expr) :
    Agrees ts (allowance + 1) .furtherSteps (furtherSteps (tape ts) e (allowance + 1))
      (steps e) := by
  intro calls rest hfits
  rw [Cursor.furtherSteps]
  refine .enter hfits (.peek hfits.left ?_)
  split
  case h_1 s p hhead =>
    obtain ⟨tail, rfl⟩ := List.head?_eq_some_iff.mp hhead
    rw [steps.eq_1]
    cases e.isVar with
    | true =>
      refine .advance hfits.left ?_
      exact (h.furtherSteps _ hfits.tail).widen
    | false => exact .fail
  case h_2 hother =>
    rw [steps.eq_2 e rest fun s p tail heq => hother s p (heq ▸ rfl)]
    exact .pure hfits.left

theorem agrees_primary (h : Agree ts allowance) :
    Agrees ts (allowance + 1) .primary (primary (tape ts) (allowance + 1)) Parser.primary := by
  intro calls rest hfits
  rw [Cursor.primary]
  refine .enter hfits (.advance hfits.left ?_)
  rcases rest with _ | ⟨⟨k, p⟩, tail⟩
  · rw [Parser.primary.eq_4 [] (by simp) (by simp) (by simp)]
    exact .fail
  · have htail := (List.suffix_cons _ _).trans hfits.left
    cases k with
    | number v =>
      rw [Parser.primary.eq_1]
      exact .pure htail
    | name name =>
      rw [primary_name]
      exact h.identifier name hfits.tail
    | opening =>
      rw [Parser.primary.eq_3]
      refine (h.sequence hfits.tail).bind fun inner hinner => ?_
      refine (follows_close hinner).bind fun close hclose => ?_
      exact .pure hclose
    | _ =>
      rw [Parser.primary.eq_4 _ (by simp) (by simp) (by simp)]
      exact .fail

theorem agrees_identifier (h : Agree ts allowance) (name : String) :
    Agrees ts (allowance + 1) .identifier (identifier (tape ts) name (allowance + 1))
      (Parser.identifier name) := by
  intro calls rest hfits
  rw [Cursor.identifier, Parser.identifier.eq_def]
  refine .enter hfits (.peek hfits.left ?_)
  rcases meaning? name with _ | e | f
  · exact .fail
  · rcases rest with _ | ⟨⟨k, q⟩, tail⟩
    · exact .pure hfits.left
    · cases k with
      | opening => exact .fail
      | _ => exact .pure hfits.left
  · rcases rest with _ | ⟨⟨k, q⟩, tail⟩
    · exact .fail
    · cases k with
      | opening =>
        refine .advance hfits.left ?_
        refine (h.arguments q hfits.tail).bind fun args hargs => ?_
        exact .pure hargs
      | _ => exact .fail

theorem agrees_arguments (h : Agree ts allowance) (p : Nat) :
    Agrees ts (allowance + 1) .arguments (arguments (tape ts) p (allowance + 1))
      (callArguments p) := by
  intro calls rest hfits
  rw [Cursor.arguments, callArguments]
  refine .enter hfits ?_
  refine (h.furtherArguments (hfits.lower (by decide))).bind fun args hargs => ?_
  refine (follows_close hargs).bind fun close hclose => ?_
  exact .pure hclose

theorem agrees_furtherArguments (h : Agree ts allowance) :
    Agrees ts (allowance + 1) .furtherArguments (furtherArguments (tape ts) (allowance + 1))
      Parser.arguments := by
  intro calls rest hfits
  rw [Cursor.furtherArguments]
  refine .enter hfits (.peek hfits.left ?_)
  split
  case h_1 p hhead =>
    obtain ⟨tail, rfl⟩ := List.head?_eq_some_iff.mp hhead
    rw [Parser.arguments.eq_1]
    exact .pure hfits.left
  case h_2 hother =>
    rw [Parser.arguments.eq_2 rest fun p tail heq => hother p (heq ▸ rfl)]
    refine (h.sum (hfits.lower (by decide))).bind fun first hfirst => ?_
    obtain ⟨first, mid, hmid⟩ := first
    refine .peek hfirst ?_
    rcases mid with _ | ⟨⟨k, q⟩, tail⟩
    · exact .pure hfirst
    · cases k with
      | comma =>
        -- the next round may find the parenthesis at once: a last comma is allowed
        have htail := (List.suffix_cons _ _).trans hfirst
        refine .advance hfirst ?_
        refine (h.furtherArguments (hfits.less htail (Nat.lt_of_succ_lt hmid))).bind
          fun more hmore => ?_
        exact .pure hmore
      | _ => exact .pure hfirst

/-- Where nothing is allowed for, no routine may be called. -/
theorem agrees_zero {k : List Token → Nat} {walk : List Call → Walk α}
    {read : (rest : List Token) → Parsed α (k rest)} : Agrees ts 0 r walk read := by
  intro calls rest hfits
  have hallowed := hfits.allowed
  have hpos := r.rank_pos
  omega

/-- All routines follow their readers, by induction on what is allowed for: each calls others with
one less. -/
theorem agree (ts : List Token) (allowance : Nat) : Agree ts allowance := by
  induction allowance with
  | zero => constructor <;> intros <;> exact agrees_zero
  | succ allowance ih =>
    -- whatever a routine calls is allowed one step less, so all routines go up together
    exact {
      sequence := agrees_sequence ih
      furtherItems := agrees_furtherItems ih
      sum := agrees_sum ih
      furtherTerms := agrees_furtherTerms ih
      product := agrees_product ih
      furtherFactors := agrees_furtherFactors ih
      signed := agrees_signed ih
      stepped := agrees_stepped ih
      furtherSteps := agrees_furtherSteps ih
      primary := agrees_primary ih
      identifier := agrees_identifier ih
      arguments := agrees_arguments ih
      furtherArguments := agrees_furtherArguments ih }

end Cursor

end SparkTrail.Expr
