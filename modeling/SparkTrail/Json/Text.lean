import SparkTrail.Text.Hexadecimal
import SparkTrail.Text.Reading

/-! Texts as JSON writes them: characters between double quotes, some of them as escapes.

A character beyond the first 65536 is escaped as two code units, a leading and a trailing
surrogate. A surrogate without its partner is no fault of the notation, but the text then stands for
nothing. -/
namespace SparkTrail.Json

open Text (Reading)

/-- A part of a text: a character, or a code unit that was written with its number. -/
inductive Piece where
  | char (c : Char)
  | unit (n : Nat)
  deriving DecidableEq, Repr

/-- The character that a letter after a backslash stands for. -/
def escaped? : Char → Option Char
  | '\x22' => some '\x22'
  | '\\' => some '\\'
  | '/' => some '/'
  | 'b' => some '\x08'
  | 'f' => some '\x0c'
  | 'n' => some '\n'
  | 'r' => some '\r'
  | 't' => some '\t'
  | _ => none

/-- The pieces of a text up to its closing quote. Control characters must be escaped. -/
def pieces : (cs : List Char) → Option (Reading Char (List Piece) cs.length)
  | [] => none
  | '\x22' :: rest => some ⟨[], rest, Reading.lt_cons rest⟩
  | '\\' :: 'u' :: a :: b :: c :: d :: rest => do
    let unit ← Text.ofHexadecimal? [a, b, c, d]
    let more ← pieces rest
    return (more.map (.unit unit :: ·)).widen (by simp only [List.length_cons]; omega)
  | '\\' :: e :: rest => do
    let c ← escaped? e
    let more ← pieces rest
    return (more.map (.char c :: ·)).widen (by simp only [List.length_cons]; omega)
  | c :: rest =>
    if c.toNat < 0x20 then none
    else do
      let more ← pieces rest
      return (more.map (.char c :: ·)).widen (Reading.le_cons rest)

/-- Whether a code unit is the first half of a character. -/
def isLeading (n : Nat) : Bool :=
  0xd800 ≤ n && n < 0xdc00

/-- Whether a code unit is the second half of a character. -/
def isTrailing (n : Nat) : Bool :=
  0xdc00 ≤ n && n < 0xe000

/-- The characters that pieces stand for, unless a surrogate has no partner. -/
def characters? : List Piece → Option (List Char)
  | [] => some []
  | .char c :: more => (c :: ·) <$> characters? more
  | .unit n :: more =>
    if isTrailing n then none
    else if isLeading n then
      match more with
      | .unit m :: more =>
        if isTrailing m then
          (Char.ofNat (0x10000 + (n - 0xd800) * 0x400 + (m - 0xdc00)) :: ·) <$> characters? more
        else none
      | _ => none
    else (Char.ofNat n :: ·) <$> characters? more

/-- The text up to its closing quote. -/
def text (cs : List Char) : Option (Reading Char (Option String) cs.length) :=
  (pieces cs).map fun r => r.map fun parts => (characters? parts).map String.ofList

end SparkTrail.Json
