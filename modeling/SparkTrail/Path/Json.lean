import SparkTrail.Json.Reader
import SparkTrail.Path.Config

/-! Path descriptions in JSON: a record with the field `path`, which may be null or left out. -/
namespace SparkTrail.PathConfig

/-- The text of a field that may be null or left out. -/
def path? : Option Data → Option (Option String)
  | none => some none
  | some .null => some none
  | some d => d.text?.map some

/-- The description that the data is. -/
def ofData? (d : Data) : Option PathConfig := do
  match ← d.fields? ["path"] with
  | [path] => return ⟨← path? path⟩
  | _ => none

/-- The description that a JSON text is. -/
def ofJson? (text : String) : Option PathConfig := do
  ofData? (← Json.read? text)

end SparkTrail.PathConfig
