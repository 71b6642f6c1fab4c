import SparkTrail.Expr.Basic

/-!
# Expressions as they are written

A term is an expression before anything is known of how it is read: it is written with all its
parentheses, it stands for a tree, and, if it leaves the variable alone, it has a value. The value
is said here without trees and without threading the variable, with every operation written out.
Calls may have any number of arguments.
-/
namespace SparkTrail.Expr

/-- A decimal numeral: digits, and perhaps a dot with digits behind it. -/
structure Numeral where
  first : Fin 10
  more : List (Fin 10)
  fraction : Option (List (Fin 10))

/-- Expressions as they are written. A comma sequence has at least one item. -/
inductive Term where
  | number (n : Numeral)
  | var
  | constant (c : Constant)
  | negate (t : Term)
  | binary (op : Operator) (lhs rhs : Term)
  | step (s : Step) (place : Place)
  | call (f : Function) (args : List Term)
  | sequence (first : Term) (more : List Term)

def Constant.name : Constant → String
  | .e => "E"
  | .pi => "PI"

def UnaryFn.name : UnaryFn → String
  | .sqrt => "sqrt"
  | .abs => "abs"
  | .floor => "floor"
  | .round => "round"
  | .ceil => "ceil"
  | .sin => "sin"
  | .cos => "cos"
  | .tan => "tan"
  | .asin => "asin"
  | .acos => "acos"
  | .atan => "atan"
  | .log => "log"

def BinaryFn.name : BinaryFn → String
  | .pow => "pow"
  | .atan2 => "atan2"

def Function.name : Function → String
  | .unary f => f.name
  | .binary f => f.name

namespace Numeral

def digits (ds : List (Fin 10)) : List Char :=
  ds.map fun (d : Fin 10) => Nat.digitChar d.val

/-- The number that digits stand for, the most significant first. -/
def number (ds : List (Fin 10)) : Nat :=
  ds.foldl (fun (n : Nat) (d : Fin 10) => 10 * n + d.val) 0

def text (n : Numeral) : List Char :=
  match n.fraction with
  | none => digits (n.first :: n.more)
  | some ds => digits (n.first :: n.more) ++ '.' :: digits ds

/-- The double nearest to the numeral. -/
def value (n : Numeral) : Float :=
  match n.fraction with
  | none => Float.ofScientific (number (n.first :: n.more)) false 0
  | some ds => Float.ofScientific (number (n.first :: n.more ++ ds)) true ds.length

end Numeral

/-- What counts in place of an argument that was not written. -/
def absent : Float := 0 / 0

/-- The power of the host language: not a number for an exponent that is not a number, and for `1`
or `-1` raised to an infinite power. -/
def hostPower (base exponent : Float) : Float :=
  if exponent.isNaN then 0 / 0
  else if base.abs == 1 && exponent.isInf then 0 / 0
  else base.pow exponent

def parenthesised (cs : List Char) : List Char :=
  '(' :: cs ++ [')']

namespace Term

mutual

def text : Term → List Char
  | .number n => n.text
  | .var => ['x']
  | .constant c => c.name.toList
  | .negate t => parenthesised ('-' :: t.text)
  | .binary op a b => parenthesised (a.text ++ (' ' :: op.symbol.toList ++ ' ' :: b.text))
  | .step s .before => parenthesised (s.symbol.toList ++ ['x'])
  | .step s .after => parenthesised ('x' :: s.symbol.toList)
  | .call f args => f.name.toList ++ parenthesised (listText args)
  | .sequence first more => parenthesised (first.text ++ moreText more)

def listText : List Term → List Char
  | [] => []
  | t :: ts => t.text ++ moreText ts

/-- The further terms of a list, each after a comma and a blank. -/
def moreText : List Term → List Char
  | [] => []
  | t :: ts => ',' :: ' ' :: t.text ++ moreText ts

end

mutual

def expr : Term → Expr
  | .number n => .number n.value
  | .var => .var
  | .constant c => .constant c
  | .negate t => .negate t.expr
  | .binary op a b => .binary op a.expr b.expr
  | .step s place => .update s place
  | .call (.unary f) args =>
    .unaryCall f ((exprs args).getD 0 (.number absent)) ((exprs args).drop 1)
  | .call (.binary f) args =>
    .binaryCall f ((exprs args).getD 0 (.number absent)) ((exprs args).getD 1 (.number absent))
      ((exprs args).drop 2)
  | .sequence first [] => first.expr
  | .sequence first (second :: more) => .sequence (first.expr :: second.expr :: exprs more)

def exprs : List Term → List Expr
  | [] => []
  | t :: ts => t.expr :: exprs ts

end

mutual

/-- Whether a term leaves the variable alone. -/
def isPure : Term → Bool
  | .number _ => true
  | .var => true
  | .constant _ => true
  | .negate t => t.isPure
  | .binary _ a b => a.isPure && b.isPure
  | .step _ _ => false
  | .call _ args => arePure args
  | .sequence first more => first.isPure && arePure more

def arePure : List Term → Bool
  | [] => true
  | t :: ts => t.isPure && arePure ts

end

mutual

/-- The value of a term that leaves the variable alone. A missing argument is not a number, surplus
ones are passed over, and a sequence has the value of its last item. -/
def value (x : Float) : Term → Float
  | .number n => n.value
  | .var => x
  | .constant .e => 2.71828182845904523536028747135266250
  | .constant .pi => 3.14159265358979323846264338327950288
  | .negate t => -(t.value x)
  | .binary .add a b => a.value x + b.value x
  | .binary .sub a b => a.value x - b.value x
  | .binary .mul a b => a.value x * b.value x
  | .binary .div a b => a.value x / b.value x
  | .step _ _ => x
  | .call (.unary f) args =>
    let v := (values x args).getD 0 absent
    match f with
    | .sqrt => v.sqrt
    | .abs => v.abs
    | .floor => v.floor
    | .round => (v + 0.5).floor
    | .ceil => v.ceil
    | .sin => v.sin
    | .cos => v.cos
    | .tan => v.tan
    | .asin => v.asin
    | .acos => v.acos
    | .atan => v.atan
    | .log => v.log
  | .call (.binary f) args =>
    let v := (values x args).getD 0 absent
    let w := (values x args).getD 1 absent
    match f with
    | .pow => hostPower v w
    | .atan2 => v.atan2 w
  | .sequence first more => (values x more).getLastD (first.value x)

def values (x : Float) : List Term → List Float
  | [] => []
  | t :: ts => t.value x :: values x ts

end

end Term

end SparkTrail.Expr
