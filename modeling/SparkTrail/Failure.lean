import SparkTrail.Expr.Error
import SparkTrail.Settings.Basic

/-! All that can go wrong while particles are prepared. Nothing goes wrong once they move. -/
namespace SparkTrail

/-- A failure of one of the parts. -/
inductive Failure where
  | expression (error : Expr.Error)
  | settings (error : Settings.Error)
  | art (detail : String)
  deriving DecidableEq, Repr

/-- The message for the user. -/
def Failure.message : Failure → String
  | .expression error => "Expression error: " ++ error.message
  | .settings error => "Config error: " ++ error.message
  | .art detail => "Art descriptor error: " ++ detail

end SparkTrail
