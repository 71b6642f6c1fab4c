import SparkTrail.Proofs.Expr.Readers
import SparkTrail.Proofs.Expr.Scanner

/-!
# Parsing over a cursor with every step checked

A program that parses keeps all tokens, with a mark for their end behind them, and a place among
them. It looks at the token at its place and moves on behind it, but not behind the mark, so moving
on is not yet to use something up. Here every look stops where there is no token, and every routine
stops where it is called at a place that is not behind all places at which it was called and has not
returned from; a loop is a routine that calls itself for its next round. As more is done than was
allowed for, that stops too.
-/
namespace SparkTrail.Expr

/-- Reading from a place on: it stalls, or ends with a fault or with a value and a place. -/
def Walk (α : Type) : Type :=
  Nat → Except Stall (Except Error (α × Nat))

namespace Walk

variable {α β : Type} {m : Walk α} {f : α → Walk β} {a : α} {err : Error} {p q : Nat}

instance : Monad Walk where
  pure a := fun place => .ok (.ok (a, place))
  bind m f := fun place =>
    match m place with
    | .error stall => .error stall
    | .ok (.error err) => .ok (.error err)
    | .ok (.ok (a, place)) => f a place

def fail (err : Error) : Walk α :=
  fun _ => .ok (.error err)

def move (next : Nat → Nat) : Walk Unit :=
  fun place => .ok (.ok ((), next place))

def stall (s : Stall) : Walk α :=
  fun _ => .error s

theorem bind_of_ok (h : m p = .ok (.ok (a, q))) : (m >>= f) p = f a q := by
  have hbind : (m >>= f) p = match m p with
    | .error stall => .error stall
    | .ok (.error err) => .ok (.error err)
    | .ok (.ok (a, q)) => f a q := rfl
  rw [hbind, h]

theorem bind_of_error (h : m p = .ok (.error err)) : (m >>= f) p = .ok (.error err) := by
  have hbind : (m >>= f) p = match m p with
    | .error stall => .error stall
    | .ok (.error err) => .ok (.error err)
    | .ok (.ok (a, q)) => f a q := rfl
  rw [hbind, h]

end Walk

namespace Cursor

open SparkTrail.Expr.Parser Walk

inductive Routine where
  | sequence | furtherItems
  | sum | furtherTerms
  | product | furtherFactors
  | signed | stepped | furtherSteps
  | primary | identifier
  | arguments | furtherArguments
  deriving DecidableEq, Repr

/-- A call that is going on, and the place at which it was made. -/
structure Call where
  routine : Routine
  place : Nat

/-- A call is noted among those that are going on. -/
def enter (routine : Routine) (calls : List Call) : Walk (List Call) := fun place =>
  if calls.all fun call => call.routine != routine || call.place < place then
    .ok (.ok (⟨routine, place⟩ :: calls, place))
  else .error .noProgress

/-- Tokens with the mark for their end behind them. -/
def tape (ts : List Token) : List (Option Token) :=
  ts.map some ++ [none]

variable (all : List (Option Token))

/-- The token at the place, which is never behind the last one. -/
def peek : Walk (Option Token) := fun place =>
  match all[min place (all.length - 1)]? with
  | some t => .ok (.ok (t, place))
  | none => .error .noToken

/-- The token at the place, which is moved on unless it is that of the last one. -/
def advance : Walk (Option Token) := do
  let t ← peek all
  move fun place => if place < all.length - 1 then place + 1 else place
  return t

def close (position : Nat) : Walk Unit := do
  match ← advance all with
  | some ⟨.closing, _⟩ => return ()
  | some t => fail (unexpected [t])
  | none => fail (.unclosedParenthesis position)

-- One routine for each reader. A routine notes its call first, and whatever it calls is allowed one
-- step less.
mutual

def sequence : (allowance : Nat) → List Call → Walk Expr
  | 0, _ => stall .tooLong
  | allowance + 1, calls => do
    let calls ← enter .sequence calls
    let first ← sum allowance calls
    let more ← furtherItems allowance calls
    return ofItems first more

def furtherItems : (allowance : Nat) → List Call → Walk (List Expr)
  | 0, _ => stall .tooLong
  | allowance + 1, calls => do
    let calls ← enter .furtherItems calls
    match ← peek all with
    | some ⟨.comma, _⟩ =>
      let _ ← advance all
      let item ← sum allowance calls
      let more ← furtherItems allowance calls
      return item :: more
    | _ => return []

def sum : (allowance : Nat) → List Call → Walk Expr
  | 0, _ => stall .tooLong
  | allowance + 1, calls => do
    let calls ← enter .sum calls
    let first ← product allowance calls
    furtherTerms first allowance calls

def furtherTerms (lhs : Expr) : (allowance : Nat) → List Call → Walk Expr
  | 0, _ => stall .tooLong
  | allowance + 1, calls => do
    let calls ← enter .furtherTerms calls
    match ← peek all with
    | some ⟨.plus, _⟩ =>
      let _ ← advance all
      let rhs ← product allowance calls
      furtherTerms (.binary .add lhs rhs) allowance calls
    | some ⟨.minus, _⟩ =>
      let _ ← advance all
      let rhs ← product allowance calls
      furtherTerms (.binary .sub lhs rhs) allowance calls
    | _ => return lhs

def product : (allowance : Nat) → List Call → Walk Expr
  | 0, _ => stall .tooLong
  | allowance + 1, calls => do
    let calls ← enter .product calls
    let first ← signed allowance calls
    furtherFactors first allowance calls

def furtherFactors (lhs : Expr) : (allowance : Nat) → List Call → Walk Expr
  | 0, _ => stall .tooLong
  | allowance + 1, calls => do
    let calls ← enter .furtherFactors calls
    match ← peek all with
    | some ⟨.star, _⟩ =>
      let _ ← advance all
      let rhs ← signed allowance calls
      furtherFactors (.binary .mul lhs rhs) allowance calls
    | some ⟨.slash, _⟩ =>
      let _ ← advance all
      let rhs ← signed allowance calls
      furtherFactors (.binary .div lhs rhs) allowance calls
    | _ => return lhs

def signed : (allowance : Nat) → List Call → Walk Expr
  | 0, _ => stall .tooLong
  | allowance + 1, calls => do
    let calls ← enter .signed calls
    match ← peek all with
    | some ⟨.minus, _⟩ =>
      let _ ← advance all
      let operand ← signed allowance calls
      return .negate operand
    | some ⟨.plus, _⟩ =>
      let _ ← advance all
      signed allowance calls
    | some ⟨.step s, _⟩ =>
      let _ ← advance all
      let operand ← signed allowance calls
      if operand.isVar then return .update s .before else fail (.invalidStepTarget s)
    | _ => stepped allowance calls

def stepped : (allowance : Nat) → List Call → Walk Expr
  | 0, _ => stall .tooLong
  | allowance + 1, calls => do
    let calls ← enter .stepped calls
    let operand ← primary allowance calls
    furtherSteps operand allowance calls

def furtherSteps (operand : Expr) : (allowance : Nat) → List Call → Walk Expr
  | 0, _ => stall .tooLong
  | allowance + 1, calls => do
    let calls ← enter .furtherSteps calls
    match ← peek all with
    | some ⟨.step s, _⟩ =>
      if operand.isVar then
        let _ ← advance all
        furtherSteps (.update s .after) allowance calls
      else fail (.invalidStepTarget s)
    | _ => return operand

def primary : (allowance : Nat) → List Call → Walk Expr
  | 0, _ => stall .tooLong
  | allowance + 1, calls => do
    let calls ← enter .primary calls
    match ← advance all with
    | some ⟨.number v, _⟩ => return .number v
    | some ⟨.name name, _⟩ => identifier name allowance calls
    | some ⟨.opening, position⟩ =>
      let inner ← sequence allowance calls
      close all position
      return inner
    | some t => fail (unexpected [t])
    | none => fail .unexpectedEnd

/-- What a name stands for, with its arguments behind it if it is that of a function. -/
def identifier (name : String) : (allowance : Nat) → List Call → Walk Expr
  | 0, _ => stall .tooLong
  | allowance + 1, calls => do
    let calls ← enter .identifier calls
    match meaning? name, ← peek all with
    | none, _ => fail (.unknownName name)
    | some (.value _), some ⟨.opening, _⟩ => fail (.notCallable name)
    | some (.value e), _ => return e
    | some (.function f), some ⟨.opening, position⟩ =>
      let _ ← advance all
      let args ← arguments position allowance calls
      return f.call args
    | some (.function _), _ => fail (.missingCall name)

def arguments (position : Nat) : (allowance : Nat) → List Call → Walk (List Expr)
  | 0, _ => stall .tooLong
  | allowance + 1, calls => do
    let calls ← enter .arguments calls
    let args ← furtherArguments allowance calls
    close all position
    return args

def furtherArguments : (allowance : Nat) → List Call → Walk (List Expr)
  | 0, _ => stall .tooLong
  | allowance + 1, calls => do
    let calls ← enter .furtherArguments calls
    match ← peek all with
    | some ⟨.closing, _⟩ => return []
    | _ =>
      let first ← sum allowance calls
      match ← peek all with
      | some ⟨.comma, _⟩ =>
        let _ ← advance all
        let more ← furtherArguments allowance calls
        return first :: more
      | _ => return [first]

end

/-- The place at which so much of the tokens is left. -/
def place (ts rest : List Token) : Nat :=
  ts.length - rest.length

variable {ts rest : List Token}

theorem place_append (before rest : List Token) : place (before ++ rest) rest = before.length := by
  rw [place, List.length_append, Nat.add_sub_cancel]

theorem length_tape (ts : List Token) : (tape ts).length - 1 = ts.length := by
  simp [tape]

/-- What is looked at is the first of the tokens that are left, or the mark for their end. -/
theorem peek_eq (h : rest <:+ ts) :
    peek (tape ts) (place ts rest) = .ok (.ok (rest.head?, place ts rest)) := by
  have hat : (tape ts)[min (place ts rest) ((tape ts).length - 1)]? = some rest.head? := by
    have hwithin : place ts rest ≤ ts.length := Nat.sub_le _ _
    rw [length_tape, Nat.min_eq_left hwithin]
    obtain ⟨before, rfl⟩ := h
    rw [place_append, tape, List.map_append, List.append_assoc,
      List.getElem?_append_right (by simp)]
    cases rest <;> simp
  rw [peek, hat]

/-- The place moves on as the list of what is left gets shorter, and stays where nothing is left. -/
theorem advance_eq (h : rest <:+ ts) :
    advance (tape ts) (place ts rest) = .ok (.ok (rest.head?, place ts rest.tail)) := by
  have hlong := h.length_le
  have hnext : (if place ts rest < ts.length then place ts rest + 1 else place ts rest) =
      place ts rest.tail := by
    unfold place
    cases rest with
    | nil => simp
    | cons t tail =>
      rw [List.length_cons] at hlong
      rw [List.length_cons, List.tail_cons, if_pos (by omega)]
      omega
  have hmove : move (fun p => if p < ts.length then p + 1 else p) (place ts rest) =
      .ok (.ok ((), place ts rest.tail)) := by
    rw [← hnext]
    rfl
  rw [advance, bind_of_ok (peek_eq h), length_tape, bind_of_ok hmove]
  rfl

end Cursor

end SparkTrail.Expr
