import SparkTrail.Text.Hexadecimal
import SparkTrail.Text.Reading

/-! Texts as TOML writes them: between double quotes with escapes or between single quotes without,
each on one line, or on several lines between three quotes. -/
namespace SparkTrail.Toml

open Text (Reading)

/-- A space or a tab. -/
def isBlank (c : Char) : Bool :=
  c == ' ' || c == '\t'

/-- A control character, which may stand in no text and no comment. The tab is none. -/
def isControl (c : Char) : Bool :=
  (c.toNat < 0x20 && c != '\t') || c.toNat == 0x7f

/-- What follows the characters of one kind at the start of a text. -/
def skip (kind : Char → Bool) (cs : List Char) : Reading Char Unit (cs.length + 1) :=
  ⟨(), cs.dropWhile kind, Reading.dropWhile_lt kind cs⟩

/-- The character that a letter after a backslash stands for. -/
def escaped? : Char → Option Char
  | 'b' => some '\x08'
  | 't' => some '\t'
  | 'n' => some '\n'
  | 'f' => some '\x0c'
  | 'r' => some '\r'
  | 'e' => some '\x1b'
  | '\x22' => some '\x22'
  | '\\' => some '\\'
  | _ => none

/-- The character whose number is written in base 16. -/
def numbered? (digits : List Char) : Option Char := do
  let n ← Text.ofHexadecimal? digits
  if n.isValidChar then some (Char.ofNat n) else none

/-- The character that an escape stands for, behind its backslash. -/
def escape (cs : List Char) : Option (Reading Char Char cs.length) :=
  match cs with
  | 'x' :: a :: b :: rest =>
    (numbered? [a, b]).map fun char => ⟨char, rest, by simp +arith⟩
  | 'u' :: a :: b :: c :: d :: rest =>
    (numbered? [a, b, c, d]).map fun char =>
      ⟨char, rest, by simp +arith⟩
  | 'U' :: a :: b :: c :: d :: e :: f :: g :: h :: rest =>
    (numbered? [a, b, c, d, e, f, g, h]).map fun char =>
      ⟨char, rest, by simp +arith⟩
  | c :: rest => (escaped? c).map fun char => ⟨char, rest, Reading.lt_cons rest⟩
  | [] => none

/-- The rest of a text between double quotes on one line. -/
def quotedText (cs : List Char) : Option (Reading Char (List Char) cs.length) :=
  match cs with
  | [] => none
  | '\x22' :: rest => some ⟨[], rest, Reading.lt_cons rest⟩
  | '\\' :: rest => do
    let c ← escape rest
    have := c.within
    let more ← quotedText c.rest
    return (more.map (c.value :: ·)).widen (by grind)
  | c :: rest =>
    if isControl c then none
    else do
      let more ← quotedText rest
      return (more.map (c :: ·)).widen (Reading.le_cons rest)
  termination_by cs.length

/-- The rest of a text between single quotes on one line. -/
def plainText : (cs : List Char) → Option (Reading Char (List Char) cs.length)
  | [] => none
  | '\x27' :: rest => some ⟨[], rest, Reading.lt_cons rest⟩
  | c :: rest =>
    if isControl c then none
    else do
      let more ← plainText rest
      return (more.map (c :: ·)).widen (Reading.le_cons rest)

/-- What follows blanks and line breaks. A carriage return alone is no line break. -/
def skipLines : (cs : List Char) → Reading Char Unit (cs.length + 1)
  | '\n' :: rest => (skipLines rest).widen (by simp)
  | '\r' :: '\n' :: rest => (skipLines rest).widen (by simp)
  | c :: rest => if isBlank c then (skipLines rest).widen (by simp) else ⟨(), c :: rest, by simp⟩
  | [] => ⟨(), [], by simp⟩

/-- Whether a line ends here, blanks apart. -/
def isAtBreak (cs : List Char) : Bool :=
  match cs.dropWhile isBlank with
  | '\n' :: _ => true
  | '\r' :: '\n' :: _ => true
  | _ => false

/-- The rest of a text between three double quotes. Up to two more quotes may stand before the
closing ones. A backslash at the end of a line leaves out all space up to the next character. -/
def quotedLines (cs : List Char) : Option (Reading Char (List Char) cs.length) :=
  match cs with
  | [] => none
  | '\x22' :: '\x22' :: '\x22' :: '\x22' :: '\x22' :: rest =>
    some ⟨['\x22', '\x22'], rest, by grind⟩
  | '\x22' :: '\x22' :: '\x22' :: '\x22' :: rest => some ⟨['\x22'], rest, by grind⟩
  | '\x22' :: '\x22' :: '\x22' :: rest => some ⟨[], rest, by grind⟩
  | '\\' :: rest =>
    if isAtBreak rest then do
      have := (skipLines rest).within
      let more ← quotedLines (skipLines rest).rest
      return more.widen (by grind)
    else do
      let c ← escape rest
      have := c.within
      let more ← quotedLines c.rest
      return (more.map (c.value :: ·)).widen (by grind)
  | '\r' :: '\n' :: rest => do
    let more ← quotedLines rest
    return (more.map ('\r' :: '\n' :: ·)).widen (by grind)
  | c :: rest =>
    if isControl c && c != '\n' then none
    else do
      let more ← quotedLines rest
      return (more.map (c :: ·)).widen (Reading.le_cons rest)
  termination_by cs.length

/-- The rest of a text between three single quotes. -/
def plainLines : (cs : List Char) → Option (Reading Char (List Char) cs.length)
  | [] => none
  | '\x27' :: '\x27' :: '\x27' :: '\x27' :: '\x27' :: rest =>
    some ⟨['\x27', '\x27'], rest, by grind⟩
  | '\x27' :: '\x27' :: '\x27' :: '\x27' :: rest => some ⟨['\x27'], rest, by grind⟩
  | '\x27' :: '\x27' :: '\x27' :: rest => some ⟨[], rest, by grind⟩
  | '\r' :: '\n' :: rest => do
    let more ← plainLines rest
    return (more.map ('\r' :: '\n' :: ·)).widen (by grind)
  | c :: rest =>
    if isControl c && c != '\n' then none
    else do
      let more ← plainLines rest
      return (more.map (c :: ·)).widen (Reading.le_cons rest)

/-- What follows a line break directly behind opening quotes, which does not belong to the text. -/
def afterBreak (cs : List Char) : Reading Char Unit (cs.length + 1) :=
  match cs with
  | '\n' :: rest => ⟨(), rest, by grind⟩
  | '\r' :: '\n' :: rest => ⟨(), rest, by grind⟩
  | cs => ⟨(), cs, Reading.lt_cons cs⟩

/-- A text with its quotes. -/
def text (cs : List Char) : Option (Reading Char String cs.length) :=
  match cs with
  | '\x22' :: '\x22' :: '\x22' :: rest =>
    let body := afterBreak rest
    (quotedLines body.rest).map fun r =>
      (r.map String.ofList).widen (by grind [body.within])
  | '\x22' :: rest => (quotedText rest).map fun r =>
    (r.map String.ofList).widen (Reading.le_cons rest)
  | '\x27' :: '\x27' :: '\x27' :: rest =>
    let body := afterBreak rest
    (plainLines body.rest).map fun r =>
      (r.map String.ofList).widen (by grind [body.within])
  | '\x27' :: rest => (plainText rest).map fun r =>
    (r.map String.ofList).widen (Reading.le_cons rest)
  | _ => none

end SparkTrail.Toml
