import SparkTrail.Expr.Function

/-! Path expressions over one variable, and their values.

An expression may change its variable while it is evaluated (`x++`, `--x`), so evaluation threads
the variable through the operands from left to right and gives its final value back beside the
result. Every evaluation starts from a fresh variable. -/
namespace SparkTrail

/-- Whether a step is written before the variable, and then yields the changed value, or after it,
and then yields the value from before the change. -/
inductive Expr.Place where
  | before | after
  deriving DecidableEq, Repr

/-- A path expression. A call keeps as many arguments as its function takes, with a number that is
not a number in place of each missing one; the surplus ones are kept in `extra`, because evaluating
them can change the variable. -/
inductive Expr where
  | number (v : Float)
  | var
  | constant (c : Expr.Constant)
  | negate (e : Expr)
  | binary (op : Expr.Operator) (lhs rhs : Expr)
  | update (step : Expr.Step) (place : Expr.Place)
  | unaryCall (f : Expr.UnaryFn) (arg : Expr) (extra : List Expr)
  | binaryCall (f : Expr.BinaryFn) (lhs rhs : Expr) (extra : List Expr)
  | sequence (items : List Expr)
  deriving Repr, Inhabited

namespace Expr

mutual

/-- The value of an expression where the variable is `x`, and the variable afterwards. -/
def run : Expr → Float → Float × Float
  | .number v, x => (v, x)
  | .var, x => (x, x)
  | .constant c, x => (c.value, x)
  | .negate e, x =>
    let (v, x) := e.run x
    (-v, x)
  | .binary op lhs rhs, x =>
    let (a, x) := lhs.run x
    let (b, x) := rhs.run x
    (op.apply a b, x)
  | .update step place, x =>
    let changed := x + step.delta
    (match place with
      | .before => changed
      | .after => x, changed)
  | .unaryCall f arg extra, x =>
    let (v, x) := arg.run x
    let (_, x) := runAll nan extra x
    (f.apply v, x)
  | .binaryCall f lhs rhs extra, x =>
    let (a, x) := lhs.run x
    let (b, x) := rhs.run x
    let (_, x) := runAll nan extra x
    (f.apply a b, x)
  | .sequence items, x => runAll nan items x

/-- The value of the last of several expressions evaluated one after the other, `last` if there
are none, and the variable afterwards. -/
def runAll (last : Float) : List Expr → Float → Float × Float
  | [], x => (last, x)
  | e :: es, x =>
    let (v, x) := e.run x
    runAll v es x

end

/-- The value of an expression at `x`. -/
def eval (e : Expr) (x : Float) : Float :=
  (e.run x).1

mutual

/-- Whether the variable occurs in an expression. -/
def usesVariable : Expr → Bool
  | .number _ => false
  | .var => true
  | .constant _ => false
  | .negate e => e.usesVariable
  | .binary _ lhs rhs => lhs.usesVariable || rhs.usesVariable
  | .update _ _ => true
  | .unaryCall _ arg extra => arg.usesVariable || anyUsesVariable extra
  | .binaryCall _ lhs rhs extra => lhs.usesVariable || rhs.usesVariable || anyUsesVariable extra
  | .sequence items => anyUsesVariable items

/-- Whether the variable occurs in one of several expressions. -/
def anyUsesVariable : List Expr → Bool
  | [] => false
  | e :: es => e.usesVariable || anyUsesVariable es

end

/-- Whether an expression is the variable itself. -/
def isVar : Expr → Bool
  | .var => true
  | _ => false

/-- The expression in place of an argument that a call does not give. -/
def missing : Expr :=
  .number nan

/-- The call of a function with the arguments that were written. -/
def Function.call : Function → List Expr → Expr
  | .unary f, [] => .unaryCall f missing []
  | .unary f, a :: extra => .unaryCall f a extra
  | .binary f, [] => .binaryCall f missing missing []
  | .binary f, [a] => .binaryCall f a missing []
  | .binary f, a :: b :: extra => .binaryCall f a b extra

/-- The expression that a comma-separated list stands for: a single item is itself. -/
def ofItems (first : Expr) : List Expr → Expr
  | [] => first
  | more => .sequence (first :: more)

end Expr

end SparkTrail
