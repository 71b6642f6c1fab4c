/-! Decimal numerals: digits, optionally with one dot among or around them. -/
namespace SparkTrail.Decimal

/-- The number that a run of decimal digits stands for, the most significant digit first. -/
def ofDigits (digits : List Char) : Nat :=
  digits.foldl (fun n d => 10 * n + (d.toNat - '0'.toNat)) 0

/-- The double nearest to a numeral such as `12`, `1.5`, `5.` or `.5`. A numeral has at least one
digit and at most one dot; anything else has no value. -/
def read? (numeral : List Char) : Option Float :=
  let whole := numeral.takeWhile Char.isDigit
  match numeral.dropWhile Char.isDigit with
  | [] => if whole.isEmpty then none else some (Float.ofScientific (ofDigits whole) false 0)
  | '.' :: fraction =>
    if fraction.all Char.isDigit && !(whole.isEmpty && fraction.isEmpty) then
      some (Float.ofScientific (ofDigits (whole ++ fraction)) true fraction.length)
    else none
  | _ :: _ => none

end SparkTrail.Decimal
