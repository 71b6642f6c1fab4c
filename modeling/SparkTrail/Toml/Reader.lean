import SparkTrail.Toml.Bare
import SparkTrail.Toml.Table
import SparkTrail.Toml.Text

/-! From TOML to data. -/
namespace SparkTrail.Toml

open Text (Reading)

/-- What stands on a line of its own: the header of a table, the header of one more table in a
list, or a value under a key. -/
inductive Statement where
  | table (keys : List String)
  | item (keys : List String)
  | assign (keys : List String) (d : Data)

/-- A character of a key without quotes. -/
def isKeyChar (c : Char) : Bool :=
  c.isAlphanum || c == '_' || c == '-'

/-- A character of a value without quotes or brackets. -/
def isBareChar (c : Char) : Bool :=
  c.isAlphanum || c == '_' || c == '-' || c == '+' || c == '.' || c == ':'

/-- The characters of one kind at the start of a text, of which there must be one. -/
def run (kind : Char → Bool) (cs : List Char) : Option (Reading Char (List Char) cs.length) :=
  match cs with
  | [] => none
  | c :: rest =>
    if kind c then
      some ⟨c :: rest.takeWhile kind, rest.dropWhile kind, Reading.dropWhile_lt kind rest⟩
    else none

/-- One key, bare or between quotes on one line. -/
def key (cs : List Char) : Option (Reading Char String cs.length) :=
  match cs with
  | '\x22' :: rest => (quotedText rest).map fun r =>
    (r.map String.ofList).widen (Reading.le_cons rest)
  | '\x27' :: rest => (plainText rest).map fun r =>
    (r.map String.ofList).widen (Reading.le_cons rest)
  | cs => (run isKeyChar cs).map fun r => r.map String.ofList

/-- Keys with dots between them, and the blanks that follow. -/
def keys (cs : List Char) : Option (Reading Char (List String) cs.length) := do
  let first ← key cs
  have := first.within
  let gap := skip isBlank first.rest
  have := gap.within
  match h : gap.rest with
  | '.' :: rest =>
    have : rest.length < gap.rest.length := by simp [h]
    have : (skip isBlank rest).rest.length < cs.length := by
      have := (skip isBlank rest).within
      omega
    let more ← keys (skip isBlank rest).rest
    return (more.map (first.value :: ·)).widen (by omega)
  | rest => return ⟨[first.value], rest, by rw [h] at this; omega⟩
  termination_by cs.length

/-- The most keys in a dotted key, and the most brackets and braces that are open in a value at
once. -/
def maxDepth : Nat :=
  80

/-- A dotted key that is not too long, and the blanks that follow. -/
def path (cs : List Char) : Option (Reading Char (List String) cs.length) := do
  let names ← keys cs
  if names.value.length ≤ maxDepth then some names else none

/-- What follows blanks, line breaks and comments. -/
def gap (cs : List Char) : Reading Char Unit (cs.length + 1) :=
  match cs with
  | '\n' :: rest => (gap rest).widen (by simp)
  | '\r' :: '\n' :: rest => (gap rest).widen (by simp)
  | '#' :: rest =>
    have := (skip (!isControl ·) rest).within
    (gap (skip (!isControl ·) rest).rest).widen (by grind)
  | c :: rest =>
    if isBlank c then (gap rest).widen (by simp) else ⟨(), c :: rest, by simp⟩
  | [] => ⟨(), [], by simp⟩
  termination_by cs.length

/-- What follows the end of a line, which may have blanks and a comment before it, or the end of
the text. -/
def lineEnd (cs : List Char) : Option (Reading Char Unit (cs.length + 1)) :=
  let blanks := skip isBlank cs
  have := blanks.within
  let comment : Reading Char Unit (cs.length + 1) :=
    match h : blanks.rest with
    | '#' :: rest =>
      (skip (!isControl ·) rest).widen (by grind)
    | rest => ⟨(), rest, by rw [h] at this; omega⟩
  have := comment.within
  match h : comment.rest with
  | [] => some ⟨(), [], by simp⟩
  | '\n' :: rest => some ⟨(), rest, by grind⟩
  | '\r' :: '\n' :: rest => some ⟨(), rest, by grind⟩
  | _ => none

/-- A value without quotes or brackets. A date may be followed by a time after one space. -/
def bare (cs : List Char) : Option (Reading Char Data cs.length) := do
  let first ← run isBareChar cs
  have := first.within
  match h : first.rest with
  | ' ' :: c :: rest =>
    if isDate List.isEmpty first.value && c.isDigit then
      let time ← run isBareChar (c :: rest)
      let d ← bare? (first.value ++ ' ' :: time.value)
      return ⟨d, time.rest, by
        have := time.within
        simp only [h, List.length_cons] at *
        omega⟩
    else
      return ⟨← bare? first.value, ' ' :: c :: rest, by rw [h] at this; exact this⟩
  | rest => return ⟨← bare? first.value, rest, by rw [h] at this; exact this⟩

/-- The record of an inline table. -/
def inline? (entries : List (List String × Data)) : Option Data := do
  let all ← entries.foldlM (fun all (keys, d) => assign keys d all) []
  return .record (toFields all)

mutual

/-- A value with room for so many brackets and braces inside each other. -/
def value (room : Nat) (cs : List Char) : Option (Reading Char Data cs.length) :=
  match cs with
  | '[' :: rest =>
    if room = 0 then none
    else do
      let items ← elements (room - 1) rest
      return (items.map .list).widen (Reading.le_cons rest)
  | '\x7b' :: rest =>
    if room = 0 then none
    else do
      let entries ← inlineEntries (room - 1) rest
      let d ← inline? entries.value
      return ⟨d, entries.rest, by grind [entries.within]⟩
  | '\x22' :: rest => (text ('\x22' :: rest)).map fun r => r.map (.text ∘ some)
  | '\x27' :: rest => (text ('\x27' :: rest)).map fun r => r.map (.text ∘ some)
  | cs => bare cs
  termination_by 2 * cs.length

/-- The elements of a list up to its closing bracket, each with a comma behind it, which may be left
out behind the last one. -/
def elements (room : Nat) (cs : List Char) : Option (Reading Char (List Data) cs.length) := do
  have : 2 * (gap cs).rest.length < 2 * cs.length + 1 := by
    have := (gap cs).within
    omega
  let start := gap cs
  have := start.within
  match h : start.rest with
  | ']' :: rest => return ⟨[], rest, by grind⟩
  | _ =>
    let first ← value room start.rest
    have := first.within
    let after := gap first.rest
    have := after.within
    match h : after.rest with
    | ']' :: rest => return ⟨[first.value], rest, by grind⟩
    | ',' :: rest =>
      have : rest.length < cs.length := by grind
      let more ← elements room rest
      return (more.map (first.value :: ·)).widen (by omega)
    | _ => none
  termination_by 2 * cs.length + 1

/-- The entries of an inline table up to its closing brace, each with a comma behind it, which may
be left out behind the last one. Lines may end anywhere but inside a dotted key. -/
def inlineEntries (room : Nat) (cs : List Char) :
    Option (Reading Char (List (List String × Data)) cs.length) := do
  let start := gap cs
  have := start.within
  match h : start.rest with
  | '\x7d' :: rest => return ⟨[], rest, by grind⟩
  | _ =>
    let names ← path start.rest
    have := names.within
    let before := gap names.rest
    have := before.within
    match h : before.rest with
    | '=' :: rest =>
      have : rest.length < cs.length := by grind
      have : (gap rest).rest.length < cs.length := by
        have := (gap rest).within
        omega
      let d ← value room (gap rest).rest
      have := d.within
      let after := gap d.rest
      have := after.within
      match h : after.rest with
      | '\x7d' :: rest => return ⟨[(names.value, d.value)], rest, by grind⟩
      | ',' :: rest =>
        have : rest.length < cs.length := by grind
        let more ← inlineEntries room rest
        return (more.map ((names.value, d.value) :: ·)).widen (by omega)
      | _ => none
    | _ => none
  termination_by 2 * cs.length + 1

end

/-- The statement at the start of a line. -/
def statement (cs : List Char) : Option (Reading Char Statement cs.length) :=
  match cs with
  | '[' :: '[' :: rest => do
    let start := skip isBlank rest
    have := start.within
    let names ← path start.rest
    have := names.within
    match h : names.rest with
    | ']' :: ']' :: rest => return ⟨.item names.value, rest, by grind⟩
    | _ => none
  | '[' :: rest => do
    let start := skip isBlank rest
    have := start.within
    let names ← path start.rest
    have := names.within
    match h : names.rest with
    | ']' :: rest => return ⟨.table names.value, rest, by grind⟩
    | _ => none
  | cs => do
    let names ← path cs
    have := names.within
    match h : names.rest with
    | '=' :: rest =>
      let start := skip isBlank rest
      let d ← value maxDepth start.rest
      return ⟨.assign names.value d.value, d.rest, by
        have := start.within
        have := d.within
        simp only [h, List.length_cons] at *
        omega⟩
    | _ => none

/-- The statements of a text, each with a line end behind it. -/
def statements (cs : List Char) : Option (List Statement) := do
  let start := gap cs
  have := start.within
  if start.rest.isEmpty then return []
  else
    let first ← statement start.rest
    have := first.within
    let after ← lineEnd first.rest
    have := after.within
    let more ← statements after.rest
    return first.value :: more
  termination_by cs.length

/-- The keys of the table that values are put into, and all entries so far. -/
structure Progress where
  current : List String
  root : Entries

/-- The progress after one more statement. -/
def Progress.step (p : Progress) : Statement → Option Progress
  | .table keys => (openTable keys p.root).map (⟨keys, ·⟩)
  | .item keys => (openItem keys p.root).map (⟨keys, ·⟩)
  | .assign keys d => (descend false (assign keys d) p.current p.root).map (⟨p.current, ·⟩)

/-- The data that a TOML text says. A byte order mark may stand in front of it. -/
def read? (text : String) : Option Data := do
  let cs :=
    match text.toList with
    | '\ufeff' :: cs => cs
    | cs => cs
  let all ← (← statements cs).foldlM Progress.step ⟨[], []⟩
  return .record (toFields all.root)

/-- What follows the name of a choice in TOML when a table is written for it. -/
def saysNothing : Data → Bool
  | .record [] => true
  | .list [] => true
  | _ => false

/-- TOML lets a list that stands for a record go on, but a field that nobody asks for must hold
sound data. -/
def convention : Data.Convention :=
  ⟨saysNothing, true, Data.isSound⟩

end SparkTrail.Toml
