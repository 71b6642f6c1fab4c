import SparkTrail.Decimal.Literal
import SparkTrail.Settings.Basic

/-! Settings from the environment, which go before those from files. -/
namespace SparkTrail.Settings

/-- The texts that the environment gives for settings. -/
structure Environment where
  verbose : Option String
  capacity : Option String
  deriving DecidableEq, Repr

/-- The truth value that a text is, to the letter. -/
def readBool? : String → Option Bool
  | "true" => some true
  | "false" => some false
  | _ => none

/-- The whole number below `2 ^ 64` that a text is: decimal digits, maybe after a plus sign. -/
def readNat? (text : String) : Option Nat :=
  let digits :=
    match text.toList with
    | '+' :: digits => digits
    | digits => digits
  if digits.isEmpty || !digits.all Char.isDigit then none
  else
    let n := Decimal.ofDigits digits
    if n < UInt64.size then some n else none

/-- The settings with those that the environment gives. A text that is no value changes nothing. -/
def override (s : Settings) (env : Environment) : Settings :=
  { s with
    verbose := (env.verbose.bind readBool?).getD s.verbose
    pool := { s.pool with capacity := (env.capacity.bind readNat?).getD s.pool.capacity } }

end SparkTrail.Settings
