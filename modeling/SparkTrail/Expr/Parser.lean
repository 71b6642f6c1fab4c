import SparkTrail.Expr.Basic
import SparkTrail.Expr.Lexer
import SparkTrail.Text.Reading

/-! From tokens to expressions, by recursive descent:

```text
sequence  := sum (',' sum)*
sum       := product (('+' | '-') product)*
product   := signed (('*' | '/') signed)*
signed    := ('+' | '-') signed | ('++' | '--') signed | stepped
stepped   := primary ('++' | '--')?
primary   := number | 'x' | constant | function '(' arguments ')' | '(' sequence ')'
arguments := (sum (',' sum)* ','?)?
```

`E` is always the constant, so `1E5` is not a numeral. Only the variable can be stepped. Every
reader that succeeds has used up a token, and the chain of readers that look at the same token goes
down the grammar, so reading ends: the readers decrease (tokens left, level). -/
namespace SparkTrail.Expr

namespace Parser

open Text (Reading)

/-- A reader of tokens that fails, or gives a value and a rest shorter than `limit`. -/
abbrev Parsed (α : Type) (limit : Nat) : Type :=
  Except Error (Reading Token α limit)

/-- The fault of finding the first of these tokens, or the end, where it cannot stand. -/
def unexpected : List Token → Error
  | [] => .unexpectedEnd
  | t :: _ => .unexpectedToken t.kind t.position

/-- What an identifier stands for: a value of its own, or a function to be called. -/
inductive Meaning where
  | value (e : Expr)
  | function (f : Function)

/-- The meaning of an identifier. -/
def meaning? (name : String) : Option Meaning :=
  if name = "x" then some (.value .var)
  else
    (Builtin.lookup? name).map fun
      | .constant c => .value (.constant c)
      | .function f => .function f

/-- The parenthesis that closes the one at byte `position`. -/
def closing (position : Nat) : (ts : List Token) → Parsed Unit ts.length
  | [] => throw (.unclosedParenthesis position)
  | ⟨.closing, _⟩ :: rest => return ⟨(), rest, by simp⟩
  | t :: _ => throw (unexpected [t])

/-- The steps written after an operand. The first turns the variable into its step, which is no
longer the variable, so a second one is a fault. -/
def steps (operand : Expr) : (ts : List Token) → Parsed Expr (ts.length + 1)
  | ⟨.step s, p⟩ :: rest =>
    if operand.isVar then do
      let r ← steps (.update s .after) rest
      return r.widen (by simp)
    else throw (.invalidStepTarget s)
  | ts => return ⟨operand, ts, by simp⟩

mutual

/-- One or more sums separated by commas. -/
def sequence (ts : List Token) : Parsed Expr ts.length := do
  let first ← sum ts
  have := first.within
  let more ← sequenceRest first.rest
  return ⟨ofItems first.value more.value, more.rest, by have := more.within; omega⟩
  termination_by (ts.length, 4)

/-- The further items of a sequence, each after a comma. -/
def sequenceRest (ts : List Token) : Parsed (List Expr) (ts.length + 1) :=
  match ts with
  | ⟨.comma, _⟩ :: rest => do
    let item ← sum rest
    have := item.within
    let more ← sequenceRest item.rest
    return ⟨item.value :: more.value, more.rest, by grind [more.within]⟩
  | ts => return ⟨[], ts, by simp⟩
  termination_by (ts.length, 0)

/-- Products added and subtracted, from left to right. -/
def sum (ts : List Token) : Parsed Expr ts.length := do
  let first ← product ts
  have := first.within
  let all ← sumRest first.value first.rest
  return all.widen (by omega)
  termination_by (ts.length, 3)

/-- The further terms of a sum whose earlier terms are `lhs`. -/
def sumRest (lhs : Expr) (ts : List Token) : Parsed Expr (ts.length + 1) :=
  match ts with
  | ⟨.plus, _⟩ :: rest => do
    let rhs ← product rest
    have := rhs.within
    let all ← sumRest (.binary .add lhs rhs.value) rhs.rest
    return all.widen (by grind)
  | ⟨.minus, _⟩ :: rest => do
    let rhs ← product rest
    have := rhs.within
    let all ← sumRest (.binary .sub lhs rhs.value) rhs.rest
    return all.widen (by grind)
  | ts => return ⟨lhs, ts, by simp⟩
  termination_by (ts.length, 0)

/-- Factors multiplied and divided, from left to right. -/
def product (ts : List Token) : Parsed Expr ts.length := do
  let first ← signed ts
  have := first.within
  let all ← productRest first.value first.rest
  return all.widen (by omega)
  termination_by (ts.length, 2)

/-- The further factors of a product whose earlier factors are `lhs`. -/
def productRest (lhs : Expr) (ts : List Token) : Parsed Expr (ts.length + 1) :=
  match ts with
  | ⟨.star, _⟩ :: rest => do
    let rhs ← signed rest
    have := rhs.within
    let all ← productRest (.binary .mul lhs rhs.value) rhs.rest
    return all.widen (by grind)
  | ⟨.slash, _⟩ :: rest => do
    let rhs ← signed rest
    have := rhs.within
    let all ← productRest (.binary .div lhs rhs.value) rhs.rest
    return all.widen (by grind)
  | ts => return ⟨lhs, ts, by simp⟩
  termination_by (ts.length, 0)

/-- An operand with the signs and steps before it. A plus sign changes nothing. -/
def signed (ts : List Token) : Parsed Expr ts.length :=
  match ts with
  | ⟨.minus, _⟩ :: rest => do
    let r ← signed rest
    return (r.map .negate).widen (by simp)
  | ⟨.plus, _⟩ :: rest => do
    let r ← signed rest
    return r.widen (by simp)
  | ⟨.step s, _⟩ :: rest => do
    let r ← signed rest
    if r.value.isVar then return (r.map fun _ => .update s .before).widen (by simp)
    else throw (.invalidStepTarget s)
  | ts => do
    let operand ← primary ts
    have := operand.within
    let r ← steps operand.value operand.rest
    return r.widen (by omega)
  termination_by (ts.length, 1)

/-- A number, a name with its call, or a sequence in parentheses. -/
def primary (ts : List Token) : Parsed Expr ts.length :=
  match ts with
  | ⟨.number v, _⟩ :: rest => return ⟨.number v, rest, by simp⟩
  | ⟨.name name, _⟩ :: rest =>
    match meaning? name, rest with
    | none, _ => throw (.unknownName name)
    | some (.value _), ⟨.opening, _⟩ :: _ => throw (.notCallable name)
    | some (.value e), rest => return ⟨e, rest, by simp⟩
    | some (.function f), ⟨.opening, position⟩ :: inner => do
      let args ← arguments inner
      have := args.within
      let close ← closing position args.rest
      return ⟨f.call args.value, close.rest, by grind [close.within]⟩
    | some (.function _), _ => throw (.missingCall name)
  | ⟨.opening, position⟩ :: rest => do
    let inner ← sequence rest
    have := inner.within
    let close ← closing position inner.rest
    return ⟨inner.value, close.rest, by grind [close.within]⟩
  | ts => throw (unexpected ts)
  termination_by (ts.length, 0)

/-- The arguments of a call up to its closing parenthesis: none, or sums separated by commas with
at most one comma after the last. -/
def arguments (ts : List Token) : Parsed (List Expr) (ts.length + 1) :=
  match ts with
  | ⟨.closing, p⟩ :: rest => return ⟨[], ⟨.closing, p⟩ :: rest, by simp⟩
  | ts => do
    let first ← sum ts
    have := first.within
    match h : first.rest with
    | ⟨.comma, _⟩ :: rest =>
      have : rest.length < first.rest.length := by simp [h]
      let more ← arguments rest
      return ⟨first.value :: more.value, more.rest, by have := more.within; omega⟩
    | rest => return ⟨[first.value], rest, by rw [h] at this; omega⟩
  termination_by (ts.length, 4)

end

end Parser

/-- The expression that a text stands for. -/
def parse (text : List Char) : Except Error Expr := do
  let all ← Parser.sequence (← tokens text)
  match all.rest with
  | [] => return all.value
  | rest => throw (Parser.unexpected rest)

end SparkTrail.Expr
