import SparkTrail.Text.Blank
import SparkTrail.Text.Extending
import SparkTrail.Text.Hexadecimal
import SparkTrail.Text.Ignorable
import SparkTrail.Text.Unassigned

/-! Text in double quotes with escapes, for descriptions that show a text exactly. -/
namespace SparkTrail.Text

/-- The two voicing marks of half width, which extend the character before them in a place of their
own. -/
def isVoicingMark (c : Char) : Bool :=
  c == '\uff9e' || c == '\uff9f'

/-- Whether a character is shown by its number: one without a mark or a place of its own, one
without a meaning, or a blank other than the space. -/
def isUnseen (c : Char) : Bool :=
  (isBlank c && c != ' ') || isIgnorable c || (isExtending c && !isVoicingMark c) || isUnassigned c

/-- A character inside double quotes. -/
def escape (c : Char) : List Char :=
  match c with
  | '\x00' => ['\\', '0']
  | '\t' => ['\\', 't']
  | '\n' => ['\\', 'n']
  | '\r' => ['\\', 'r']
  | '\x22' => ['\\', '\x22']
  | '\\' => ['\\', '\\']
  | c => if isUnseen c then ['\\', 'u', '\x7b'] ++ hexadecimal c.toNat ++ ['\x7d'] else [c]

/-- A text in double quotes. -/
def quoted (text : String) : String :=
  String.ofList ('\x22' :: text.toList.flatMap escape ++ ['\x22'])

end SparkTrail.Text
