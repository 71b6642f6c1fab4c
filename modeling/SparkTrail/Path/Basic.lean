import SparkTrail.Expr.Allowed
import SparkTrail.Expr.Parser
import SparkTrail.Text.Quoted

/-! Paths: functions from the distance travelled to a sideways offset, compiled from text. -/
namespace SparkTrail

/-- A compiled path: the expression and the text it was parsed from. -/
structure Path where
  expr : Expr
  source : String
  deriving Repr, Inhabited

namespace Path

/-- The path that a text stands for: what may not stand in an expression is dropped, blanks at both
ends are cut off, and the rest is parsed. -/
def compile (text : String) : Except Expr.Error Path :=
  match Text.trim (Expr.filter text.toList).text with
  | [] => throw .empty
  | source => do
    let expr ← Expr.parse source
    return ⟨expr, String.ofList source⟩

/-- The offset after the distance `x`. -/
def offset (p : Path) (x : Float) : Float :=
  p.expr.eval x

/-- A path as shown to a developer. -/
def describe (p : Path) : String :=
  "CompiledPath \x7b source: " ++ Text.quoted p.source ++ " \x7d"

end Path

end SparkTrail
