import SparkTrail.Proofs.Json.Lexing
import SparkTrail.Proofs.Json.Listing
import SparkTrail.Proofs.Settings.Document

/-!
# A printed document is read back

Documents are printed with one field per line, each two spaces deeper than its record. Whatever the
document, its text is cut into the tokens of its data, so the reader finds that data again.
-/
namespace SparkTrail

open Text (EndsRun)

namespace Json

/-- The end of a line, and two spaces for each record that the next one is in. -/
def newline (depth : Nat) : List Char :=
  '\n' :: List.replicate (2 * depth) ' '

/-- A field on a line of its own. -/
def field (depth : Nat) (name : Word) (text : List Char) : List Char :=
  newline depth ++ ('\x22' :: (name.chars ++ ['\x22']) ++ ':' :: ' ' :: text)

mutual

/-- A document inside so many records as it is printed. -/
def pretty (depth : Nat) : Document → List Char
  | .leaf l => l.text
  | .record [] => ['\x7b', '\x7d']
  | .record ((name, d) :: fields) =>
    '\x7b' :: (field (depth + 1) name (pretty (depth + 1) d) ++ prettyFields depth fields)

def prettyFields (depth : Nat) : List (Word × Document) → List Char
  | [] => newline depth ++ ['\x7d']
  | (name, d) :: fields =>
    ',' :: (field (depth + 1) name (pretty (depth + 1) d) ++ prettyFields depth fields)

end

variable {cs rest : List Char} {ts : List Token}

theorem lexes_word (w : Word) : Lexes ('\x22' :: (w.chars ++ ['\x22']))
    [.text (some (String.ofList w.chars))] rest :=
  lexes_text w.isPlain

theorem lexes_newline (depth : Nat) : Lexes (newline depth) [] rest := by
  refine lexes_spaces fun c hc => ?_
  rcases List.mem_cons.mp hc with rfl | hc
  · rfl
  · rw [List.eq_of_mem_replicate hc]
    rfl

/-- The tokens of a field, given those of its value. -/
theorem lexes_field (depth : Nat) (name : Word) (h : Lexes cs ts rest) :
    Lexes (field depth name cs) (.text (some (String.ofList name.chars)) :: .colon :: ts) rest := by
  have hspace : Lexes [' '] [] (cs ++ rest) := lexes_spaces (List.all_eq_true.mp (by decide))
  have hvalue : Lexes (':' :: ' ' :: cs) (.colon :: ts) rest :=
    (hspace.append h).cons_mark (by decide)
  exact (lexes_newline depth).append ((lexes_word name).append hvalue)

/-- A leaf is one token, also before what ends a number. -/
theorem lexes_leaf (l : Leaf) (h : EndsRun continuesNumeral rest) :
    Lexes l.text (listing l.data) rest := by
  cases l with
  | bool b => exact lexes_bool b
  | nat n fits => exact lexes_nat fits h
  | word w => exact lexes_word w

/-- What follows a field ends every number in front of it. -/
theorem endsRun_prettyFields (depth : Nat) (fields : List (Word × Document)) (rest : List Char) :
    EndsRun continuesNumeral (prettyFields depth fields ++ rest) := by
  cases fields with
  | nil => exact Text.endsRun_cons (by decide) _
  | cons f fields => exact Text.endsRun_cons (by decide) _

mutual

/-- A printed document is cut into the tokens of its data. -/
theorem lexes_pretty : ∀ (depth : Nat) (d : Document) {rest : List Char},
    EndsRun continuesNumeral rest → Lexes (pretty depth d) (listing d.data) rest
  | _, .leaf l, _, h => lexes_leaf l h
  | _, .record [], rest, _ => by
    have hclosing : Lexes ['\x7d'] [.endRecord] rest := lexes_mark (by decide)
    exact hclosing.cons_mark (by decide)
  | depth, .record ((name, d) :: fields), rest, h => by
    have hd := lexes_pretty (depth + 1) d (endsRun_prettyFields depth fields rest)
    have hfields := (lexes_field (depth + 1) name hd).append (lexes_prettyFields depth fields h)
    exact hfields.cons_mark (by decide)

/-- The fields behind the first one. -/
theorem lexes_prettyFields : ∀ (depth : Nat) (fields : List (Word × Document)) {rest : List Char},
    EndsRun continuesNumeral rest →
      Lexes (prettyFields depth fields) (listingFields (Document.fields fields)) rest
  | depth, [], _, _ => (lexes_newline depth).append (lexes_mark (by decide))
  | depth, (name, d) :: fields, rest, h => by
    have hd := lexes_pretty (depth + 1) d (endsRun_prettyFields depth fields rest)
    have hfields := (lexes_field (depth + 1) name hd).append (lexes_prettyFields depth fields h)
    exact hfields.cons_mark (by decide)

end

mutual

theorem isListed_data : ∀ (d : Document), isListed d.data = true
  | .leaf l => by cases l <;> rfl
  | .record fields => areListedFields_fields fields

theorem areListedFields_fields : ∀ (fields : List (Word × Document)),
    areListedFields (Document.fields fields) = true
  | [] => rfl
  | (_, d) :: fields => by
    rw [Document.fields, areListedFields, isListed_data d, areListedFields_fields fields]
    rfl

end

/-- A printed document says its data. -/
theorem read_pretty (d : Document) : read? (String.ofList (pretty 0 d)) = some d.data := by
  refine read_of_listing ?_ (isListed_data d)
  rw [String.toList_ofList]
  exact (lexes_pretty 0 d Text.endsRun_nil).tokens_eq

/-! ## Lists -/

def prettyItems (depth : Nat) : List Document → List Char
  | [] => [']']
  | d :: ds => ',' :: (pretty depth d ++ prettyItems depth ds)

/-- A list of documents as it is printed, without lines of its own. -/
def prettyList (depth : Nat) : List Document → List Char
  | [] => ['[', ']']
  | d :: ds => '[' :: (pretty depth d ++ prettyItems depth ds)

def prettyListField (name : Word) (ds : List Document) : List Char :=
  '\x7b' :: (field 1 name (prettyList 1 ds) ++ ['\x7d'])

theorem endsRun_prettyItems (depth : Nat) (ds : List Document) (rest : List Char) :
    EndsRun continuesNumeral (prettyItems depth ds ++ rest) := by
  cases ds with
  | nil => exact Text.endsRun_cons (by decide) _
  | cons d ds => exact Text.endsRun_cons (by decide) _

theorem lexes_prettyItems (depth : Nat) (ds : List Document) :
    Lexes (prettyItems depth ds) (listingMore (ds.map Document.data)) rest := by
  induction ds with
  | nil => exact lexes_mark (by decide)
  | cons d ds ih =>
    have hd := lexes_pretty depth d (endsRun_prettyItems depth ds rest)
    exact (hd.append ih).cons_mark (by decide)

theorem lexes_prettyList (depth : Nat) (ds : List Document) :
    Lexes (prettyList depth ds) (listing (.list (ds.map Document.data))) rest := by
  cases ds with
  | nil =>
    have hclosing : Lexes [']'] [.endList] rest := lexes_mark (by decide)
    exact hclosing.cons_mark (by decide)
  | cons d ds =>
    have hd := lexes_pretty depth d (endsRun_prettyItems depth ds rest)
    exact (hd.append (lexes_prettyItems depth ds)).cons_mark (by decide)

theorem areListed_data (ds : List Document) : areListed (ds.map Document.data) = true := by
  induction ds with
  | nil => rfl
  | cons d ds ih =>
    rw [List.map_cons, areListed, isListed_data, ih]
    rfl

theorem read_prettyListField (name : Word) (ds : List Document) :
    read? (String.ofList (prettyListField name ds)) =
      some (.record [(some (String.ofList name.chars), .list (ds.map Document.data))]) := by
  refine read_of_listing ?_ ?_
  · have hclosing : Lexes ['\x7d'] [.endRecord] [] := lexes_mark (by decide)
    have hfield := (lexes_field 1 name (lexes_prettyList 1 ds)).append hclosing
    rw [String.toList_ofList]
    exact (hfield.cons_mark (by decide)).tokens_eq
  · rw [isListed, areListedFields, isListed, areListed_data]
    rfl

end Json

end SparkTrail
