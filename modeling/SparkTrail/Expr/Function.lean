/-! The named constants, the functions and the operators of path expressions, and what they
compute on doubles. -/
namespace SparkTrail.Expr

/-- A named number. -/
inductive Constant where
  | e
  | pi
  deriving DecidableEq, Repr

/-- A function of one argument. -/
inductive UnaryFn where
  | sqrt | abs | floor | round | ceil | sin | cos | tan | asin | acos | atan | log
  deriving DecidableEq, Repr

/-- A function of two arguments: `pow base exponent` and `atan2 y x`. -/
inductive BinaryFn where
  | pow | atan2
  deriving DecidableEq, Repr

/-- An arithmetic operator between two operands. -/
inductive Operator where
  | add | sub | mul | div
  deriving DecidableEq, Repr

/-- A change of the variable by one. -/
inductive Step where
  | increment | decrement
  deriving DecidableEq, Repr

/-- The double nearest to the constant. -/
def Constant.value : Constant → Float
  | .e => 2.718281828459045
  | .pi => 3.141592653589793

/-- The function's value. A half is rounded up, so `round (-2.5)` is `-2`, and `log` is the
natural logarithm. -/
def UnaryFn.apply : UnaryFn → Float → Float
  | .sqrt, v => v.sqrt
  | .abs, v => v.abs
  | .floor, v => v.floor
  | .round, v => (v + 0.5).floor
  | .ceil, v => v.ceil
  | .sin, v => v.sin
  | .cos, v => v.cos
  | .tan, v => v.tan
  | .asin, v => v.asin
  | .acos, v => v.acos
  | .atan, v => v.atan
  | .log, v => v.log

/-- Not a number. -/
def nan : Float := 0.0 / 0.0

/-- The function's value. A power with an exponent that is not a number, and `1` or `-1` raised to
an infinite power, are not numbers, where the usual floating-point power says one. -/
def BinaryFn.apply : BinaryFn → Float → Float → Float
  | .pow, a, b => if b.isNaN || (a.abs == 1 && b.isInf) then nan else a.pow b
  | .atan2, a, b => a.atan2 b

/-- The result of the operator on doubles. -/
def Operator.apply : Operator → Float → Float → Float
  | .add, a, b => a + b
  | .sub, a, b => a - b
  | .mul, a, b => a * b
  | .div, a, b => a / b

/-- How the operator is written. -/
def Operator.symbol : Operator → String
  | .add => "+"
  | .sub => "-"
  | .mul => "*"
  | .div => "/"

/-- What is added to the variable. -/
def Step.delta : Step → Float
  | .increment => 1.0
  | .decrement => -1.0

/-- How the step is written, before or after the variable. -/
def Step.symbol : Step → String
  | .increment => "++"
  | .decrement => "--"

/-- A function of either arity. -/
inductive Function where
  | unary (f : UnaryFn)
  | binary (f : BinaryFn)
  deriving DecidableEq, Repr

/-- What a name other than the variable's can stand for. -/
inductive Builtin where
  | constant (c : Constant)
  | function (f : Function)
  deriving DecidableEq, Repr

/-- Every name with its meaning, in the order in which names are looked for in running text.
`atan` stands before `atan2`: where the text says `atan2` the shorter name is found, and the digit
after it is kept as a digit. -/
def Builtin.table : List (String × Builtin) :=
  [("pow", .function (.binary .pow)),
    ("sqrt", .function (.unary .sqrt)),
    ("abs", .function (.unary .abs)),
    ("floor", .function (.unary .floor)),
    ("round", .function (.unary .round)),
    ("ceil", .function (.unary .ceil)),
    ("E", .constant .e),
    ("PI", .constant .pi),
    ("sin", .function (.unary .sin)),
    ("cos", .function (.unary .cos)),
    ("tan", .function (.unary .tan)),
    ("asin", .function (.unary .asin)),
    ("acos", .function (.unary .acos)),
    ("atan", .function (.unary .atan)),
    ("atan2", .function (.binary .atan2)),
    ("log", .function (.unary .log))]

/-- The meaning of a name, if it has one. Upper and lower case differ. -/
def Builtin.lookup? (name : String) : Option Builtin :=
  Builtin.table.lookup name

end SparkTrail.Expr
