import SparkTrail.Decimal.Literal
import SparkTrail.Expr.Error
import SparkTrail.Text.Blank

/-! From text to tokens. The whole text is cut into tokens before any of it is parsed, so a fault
found here comes before every fault of the grammar. -/
namespace SparkTrail.Expr

/-- A character of a numeral. -/
def isNumeral (c : Char) : Bool :=
  c.isDigit || c == '.'

/-- A character that a name can start with. -/
def isNameStart (c : Char) : Bool :=
  c.isAlpha || c == '_'

/-- A character that a name can go on with. -/
def isNameRest (c : Char) : Bool :=
  isNameStart c || c.isDigit

/-- The token that starts with the character `c`, and how many of the characters after `c` belong
to it. Every token is ASCII, so its characters are its bytes. A numeral is the longest run of digits
and dots and must then be one number; a sign written twice is a step. -/
def lexeme (position : Nat) (c : Char) (cs : List Char) : Except Error (TokenKind × Nat) :=
  if isNumeral c then
    let more := cs.takeWhile isNumeral
    match Decimal.read? (c :: more) with
    | some v => return (.number v, more.length)
    | none => throw (.invalidNumber (String.ofList (c :: more)) position)
  else if isNameStart c then
    let more := cs.takeWhile isNameRest
    return (.name (String.ofList (c :: more)), more.length)
  else
    match c with
    | '+' => if cs.head? = some '+' then return (.step .increment, 1) else return (.plus, 0)
    | '-' => if cs.head? = some '-' then return (.step .decrement, 1) else return (.minus, 0)
    | '*' => return (.star, 0)
    | '/' => return (.slash, 0)
    | '(' => return (.opening, 0)
    | ')' => return (.closing, 0)
    | ',' => return (.comma, 0)
    | _ => throw (.unexpectedChar c position)

/-- The tokens of a text whose first character is the byte `position`, and the byte at which the
search for one more comes to the end of the text. Blanks separate tokens and are left out. -/
def scan (position : Nat) : List Char → Except Error (List Token × Nat)
  | [] => return ([], position)
  | c :: cs =>
    if Text.isBlank c then scan (position + c.utf8Size) cs
    else do
      let (kind, more) ← lexeme position c cs
      let (tokens, stop) ← scan (position + 1 + more) (cs.drop more)
      return (⟨kind, position⟩ :: tokens, stop)
  termination_by cs => cs.length

/-- The tokens alone of a text whose first character is the byte `position`. -/
def tokensFrom (position : Nat) (text : List Char) : Except Error (List Token) :=
  (scan position text).map Prod.fst

/-- The tokens of a text. -/
def tokens (text : List Char) : Except Error (List Token) :=
  tokensFrom 0 text

end SparkTrail.Expr
