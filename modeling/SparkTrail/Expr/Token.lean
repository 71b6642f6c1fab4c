import SparkTrail.Decimal.Shortest
import SparkTrail.Expr.Function

/-! The tokens of path expressions. -/
namespace SparkTrail.Expr

/-- What a token is. -/
inductive TokenKind where
  | number (v : Float)
  | name (text : String)
  | plus
  | minus
  | step (s : Step)
  | star
  | slash
  | opening
  | closing
  | comma
  deriving DecidableEq, Repr

/-- A token and the byte at which it starts in the UTF-8 text. -/
structure Token where
  kind : TokenKind
  position : Nat
  deriving DecidableEq, Repr

/-- How messages show a token: numbers in their shortest notation, the rest as written. -/
def TokenKind.text : TokenKind → String
  | .number v => Decimal.shortest v
  | .name text => text
  | .plus => "+"
  | .minus => "-"
  | .step s => s.symbol
  | .star => "*"
  | .slash => "/"
  | .opening => "("
  | .closing => ")"
  | .comma => ","

end SparkTrail.Expr
