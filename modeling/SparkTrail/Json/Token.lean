import SparkTrail.Json.Numeral
import SparkTrail.Json.Text

/-! The tokens of JSON. -/
namespace SparkTrail.Json

open Text (Reading)

/-- A token of JSON. -/
inductive Token where
  | null
  | bool (b : Bool)
  | number (n : Option Number)
  | text (t : Option String)
  | beginList
  | endList
  | beginRecord
  | endRecord
  | comma
  | colon
  deriving DecidableEq, Repr

/-- The characters that may stand between tokens. -/
def isSpace (c : Char) : Bool :=
  c == ' ' || c == '\t' || c == '\n' || c == '\r'

/-- What follows a word. -/
def afterWord (word cs : List Char) : Option (Reading Char Unit (cs.length + 1)) :=
  if word.isPrefixOf cs then some ⟨(), cs.drop word.length, by grind⟩ else none

/-- The digits at the start of a text, of which there must be one. -/
def digits (cs : List Char) : Option (Reading Char (List Char) cs.length) :=
  match cs with
  | [] => none
  | c :: rest =>
    if c.isDigit then
      some ⟨c :: rest.takeWhile Char.isDigit, rest.dropWhile Char.isDigit,
        Reading.dropWhile_lt Char.isDigit rest⟩
    else none

/-- The digits before the dot: a zero alone, or digits without a zero in front. -/
def wholePart (cs : List Char) : Option (Reading Char (List Char) cs.length) :=
  match cs with
  | '0' :: rest => some ⟨['0'], rest, Reading.lt_cons rest⟩
  | cs => digits cs

/-- The dot and the digits after it, or nothing. -/
def fractionPart (cs : List Char) : Option (Reading Char (List Char) (cs.length + 1)) :=
  match cs with
  | '.' :: rest => (digits rest).map fun r => r.widen (by grind)
  | cs => some ⟨[], cs, Reading.lt_cons cs⟩

/-- The sign of an exponent and its digits. -/
def exponentDigits (cs : List Char) : Option (Reading Char (Bool × List Char) cs.length) :=
  match cs with
  | '-' :: rest => (digits rest).map fun r => (r.map (true, ·)).widen (Reading.le_cons rest)
  | '+' :: rest => (digits rest).map fun r => (r.map (false, ·)).widen (Reading.le_cons rest)
  | cs => (digits cs).map fun r => r.map (false, ·)

/-- The exponent, or nothing. -/
def exponentPart (cs : List Char) :
    Option (Reading Char (Option (Bool × List Char)) (cs.length + 1)) :=
  match cs with
  | 'e' :: rest => (exponentDigits rest).map fun r => (r.map some).widen (by grind)
  | 'E' :: rest => (exponentDigits rest).map fun r => (r.map some).widen (by grind)
  | cs => some ⟨none, cs, Reading.lt_cons cs⟩

/-- A numeral without its sign. -/
def numeral (negative : Bool) (cs : List Char) : Option (Reading Char Numeral cs.length) := do
  let whole ← wholePart cs
  let fraction ← fractionPart whole.rest
  let exponent ← exponentPart fraction.rest
  return ⟨⟨negative, whole.value, fraction.value, exponent.value⟩, exponent.rest, by
    have := whole.within
    have := fraction.within
    have := exponent.within
    omega⟩

/-- A reading of a numeral as one of a token. -/
def numberToken {n : Nat} (r : Reading Char Numeral n) : Reading Char Token n :=
  r.map fun numeral => .number numeral.value?

/-- The token that starts with the character `c`. -/
def lexeme (c : Char) (cs : List Char) : Option (Reading Char Token (cs.length + 1)) :=
  match c with
  | '[' => some ⟨.beginList, cs, Reading.lt_cons cs⟩
  | ']' => some ⟨.endList, cs, Reading.lt_cons cs⟩
  | '\x7b' => some ⟨.beginRecord, cs, Reading.lt_cons cs⟩
  | '\x7d' => some ⟨.endRecord, cs, Reading.lt_cons cs⟩
  | ',' => some ⟨.comma, cs, Reading.lt_cons cs⟩
  | ':' => some ⟨.colon, cs, Reading.lt_cons cs⟩
  | 'n' => (afterWord "ull".toList cs).map fun r => r.map fun _ => .null
  | 't' => (afterWord "rue".toList cs).map fun r => r.map fun _ => .bool true
  | 'f' => (afterWord "alse".toList cs).map fun r => r.map fun _ => .bool false
  | '\x22' => (text cs).map fun r => (r.map .text).widen (Reading.le_cons cs)
  | '-' => (numeral true cs).map fun r => (numberToken r).widen (Reading.le_cons cs)
  | c => if c.isDigit then (numeral false (c :: cs)).map numberToken else none

/-- The tokens of a text. -/
def tokens : List Char → Option (List Token)
  | [] => some []
  | c :: cs =>
    if isSpace c then tokens cs
    else do
      let r ← lexeme c cs
      have := r.within
      let more ← tokens r.rest
      return r.value :: more
  termination_by cs => cs.length

end SparkTrail.Json
