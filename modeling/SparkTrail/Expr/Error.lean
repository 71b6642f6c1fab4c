import SparkTrail.Expr.Token

/-! Why a text is not a path expression. -/
namespace SparkTrail.Expr

/-- The first fault found in a text. Positions are bytes of the UTF-8 text. -/
inductive Error where
  | empty
  | invalidNumber (literal : String) (position : Nat)
  | unexpectedChar (char : Char) (position : Nat)
  | unexpectedToken (kind : TokenKind) (position : Nat)
  | unexpectedEnd
  | unclosedParenthesis (position : Nat)
  | invalidStepTarget (step : Step)
  | unknownName (name : String)
  | notCallable (name : String)
  | missingCall (name : String)
  deriving DecidableEq, Repr

/-- The message for the user. -/
def Error.message : Error → String
  | .empty => "Expression is empty after filtering"
  | .invalidNumber literal position => s!"Invalid number literal '{literal}' at {position}"
  | .unexpectedChar char position => s!"Unexpected character '{char}' at {position}"
  | .unexpectedToken kind position => s!"Unexpected token '{kind.text}' at {position}"
  | .unexpectedEnd => "Unexpected end of expression"
  | .unclosedParenthesis position => s!"Unclosed parenthesis opened at {position}"
  | .invalidStepTarget step =>
    s!"Invalid operand for '{step.symbol}', only 'x' can be incremented or decremented"
  | .unknownName name => s!"Unknown identifier '{name}'"
  | .notCallable name => s!"'{name}' is not a function"
  | .missingCall name => s!"Function '{name}' must be called"

end SparkTrail.Expr
