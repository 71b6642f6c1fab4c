import SparkTrail.Data
import SparkTrail.Decimal.Literal
import SparkTrail.Decimal.Range
import SparkTrail.Text.Hexadecimal

/-! Values that TOML writes without quotes or brackets: truth values, numbers, dates and times.

Only truth values and whole numbers are read. Every other value of this kind is known by its shape,
and a number also by its size. -/
namespace SparkTrail.Toml

/-- The digits of a numeral, which may be grouped by single underscores between two digits. -/
def grouped? (isDigit : Char → Bool) : List Char → Option (List Char)
  | [] => none
  | [c] => if isDigit c then some [c] else none
  | c :: '_' :: d :: rest =>
    if isDigit c && isDigit d then (c :: ·) <$> grouped? isDigit (d :: rest) else none
  | c :: rest => if isDigit c then (c :: ·) <$> grouped? isDigit rest else none

/-- A digit in base 2, 8 or 16. -/
def isDigitBelow (base : Nat) (c : Char) : Bool :=
  match Text.hexDigit? c with
  | some n => n < base
  | none => false

/-- The digits of a whole number in base ten: a zero alone, or digits without a zero in front. -/
def decimalDigits? (cs : List Char) : Option (List Char) :=
  match grouped? Char.isDigit cs with
  | some ['0'] => some ['0']
  | some ('0' :: _) => none
  | digits => digits

/-- A whole number, if it fits in 128 bits, with or without a bit for the sign. -/
def whole? (n : Int) : Option Number :=
  if -Int.pow 2 127 ≤ n ∧ n < Int.pow 2 128 then some (.whole n) else none

/-- The data that digits in a base are. They may be missing, but then they stand for no number. -/
def inBase? (base : Nat) (cs : List Char) : Option Data :=
  if cs.isEmpty then some (.number none)
  else do
    let digits ← grouped? (isDigitBelow base) cs
    let values ← digits.mapM Text.hexDigit?
    return .number (whole? (values.foldl (fun n d => base * n + d) 0 : Nat))

/-- A value without the sign in front. -/
def unsigned : List Char → List Char
  | '+' :: rest => rest
  | '-' :: rest => rest
  | cs => cs

/-- The data that a whole number is. A base other than ten is written in front of the digits, and
then there is no sign. -/
def integer? : List Char → Option Data
  | '0' :: 'x' :: rest => inBase? 16 rest
  | '0' :: 'o' :: rest => inBase? 8 rest
  | '0' :: 'b' :: rest => inBase? 2 rest
  | cs => do
    let n := Decimal.ofDigits (← decimalDigits? (unsigned cs))
    return .number (whole? (if cs.head? = some '-' then -(n : Int) else n))

/-- The characters of a numeral's digits. -/
def isGroupChar (c : Char) : Bool :=
  c.isDigit || c == '_'

/-- The exponent that is written; nothing is the exponent 0. -/
def exponent? : List Char → Option Int
  | [] => some 0
  | c :: rest => do
    if c == 'e' || c == 'E' then
      let n := Decimal.ofDigits (← grouped? Char.isDigit (unsigned rest))
      return if rest.head? = some '-' then -(n : Int) else n
    else none

/-- The digits of a number that is not whole and has no sign, with the power of ten of the last one.
It has a fraction, an exponent or both. -/
def decimal? (cs : List Char) : Option (Nat × Int) := do
  let digits ← decimalDigits? (cs.takeWhile isGroupChar)
  match cs.dropWhile isGroupChar with
  | [] => none
  | '.' :: rest =>
    let fraction ← grouped? Char.isDigit (rest.takeWhile isGroupChar)
    let power ← exponent? (rest.dropWhile isGroupChar)
    return (Decimal.ofDigits (digits ++ fraction), power - fraction.length)
  | rest => return (Decimal.ofDigits digits, ← exponent? rest)

/-- The data that a number which is not whole is, or an infinity, or no number at all. Beyond all
doubles it stands for nothing. -/
def real? (cs : List Char) : Option Data :=
  let cs := unsigned cs
  if cs = "inf".toList || cs = "nan".toList then some .other
  else (decimal? cs).map fun (n, power) => if Decimal.isDouble n power then .other else .number none

/-- Whether two characters are a number from `low` to `high`. -/
def isPair (low high : Nat) (a b : Char) : Bool :=
  a.isDigit && b.isDigit && low ≤ Decimal.ofDigits [a, b] && Decimal.ofDigits [a, b] ≤ high

/-- Whether the text is a distance from universal time, or nothing. -/
def isOffset : List Char → Bool
  | [] => true
  | ['Z'] => true
  | ['z'] => true
  | [sign, a, b, ':', c, d] => (sign == '+' || sign == '-') && isPair 0 23 a b && isPair 0 59 c d
  | _ => false

/-- Whether the text is a time of day, with what `after` allows behind it. The seconds may be left
out. -/
def isTime (after : List Char → Bool) : List Char → Bool
  | a :: b :: ':' :: c :: d :: rest =>
    isPair 0 23 a b && isPair 0 59 c d &&
      match rest with
      | ':' :: e :: f :: '.' :: fraction =>
        isPair 0 60 e f && !(fraction.takeWhile Char.isDigit).isEmpty &&
          after (fraction.dropWhile Char.isDigit)
      | ':' :: e :: f :: rest => isPair 0 60 e f && after rest
      | rest => after rest
  | _ => false

/-- The number of days in a month. -/
def daysIn (year month : Nat) : Nat :=
  if month = 2 then
    if year % 4 = 0 ∧ (year % 100 ≠ 0 ∨ year % 400 = 0) then 29 else 28
  else if month = 4 ∨ month = 6 ∨ month = 9 ∨ month = 11 then 30
  else 31

/-- Whether the text is a date, with what `after` allows behind it. -/
def isDate (after : List Char → Bool) : List Char → Bool
  | a :: b :: c :: d :: '-' :: e :: f :: '-' :: g :: h :: rest =>
    [a, b, c, d].all Char.isDigit && isPair 1 12 e f &&
      isPair 1 (daysIn (Decimal.ofDigits [a, b, c, d]) (Decimal.ofDigits [e, f])) g h && after rest
  | _ => false

/-- Whether the text is a time on a date, behind the letter between them, or nothing. -/
def isTimeOnDate : List Char → Bool
  | [] => true
  | c :: rest => (c == 'T' || c == 't' || c == ' ') && isTime isOffset rest

/-- The data that a value without quotes or brackets is. -/
def bare? (cs : List Char) : Option Data :=
  if cs = "true".toList then some (.bool true)
  else if cs = "false".toList then some (.bool false)
  else if isDate isTimeOnDate cs || isTime List.isEmpty cs then some .other
  else integer? cs <|> real? cs

end SparkTrail.Toml
