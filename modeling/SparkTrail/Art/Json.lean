import SparkTrail.Art.Basic
import SparkTrail.Json.Reader

/-! Animated art in JSON: one description or a list of them. A description is a record of
`framerate`, `loop` and `textures`; `loop` may be left out. A framerate is a number of frames per
second or the word `"matchLife"`. A texture is a name, or a record of `texture` and `count`. -/
namespace SparkTrail

variable {α : Type} [Scalar α]

/-- The framerate that the data is. A word that is not known counts as no valid number. -/
def Framerate.ofData? : Data → Option (Framerate α)
  | .number (some n) => some (.fixed n.toScalar)
  | .text (some "matchLife") => some .matchLife
  | .text (some _) => some (.fixed 0)
  | _ => none

/-- The count of a repeated texture, zero if there is none. -/
def FrameEntry.count? : Option Data → Option Float
  | none => some 0
  | some .null => some 0
  | some d => d.number?.map Number.toDouble

/-- The texture entry that the data is. Unlike other records it cannot be written as a list. -/
def FrameEntry.ofData? (d : Data) : Option FrameEntry :=
  match d with
  | .text (some name) => some (.once (.named name))
  | .record _ => do
    match ← d.fields? ["texture", "count"] with
    | [some texture, count] => return .repeated (.named (← texture.text?)) (← count? count)
    | _ => none
  | _ => none

namespace ArtDescription

/-- The description that the data is. -/
def ofData? (d : Data) : Option (ArtDescription α) := do
  match ← d.fields? ["framerate", "loop", "textures"] with
  | [some framerate, loops, some textures] =>
    let framerate ← Framerate.ofData? framerate
    let loops ← (loops.map Data.bool?).getD (some false)
    let entries ← (← textures.list?).mapM FrameEntry.ofData?
    return ⟨framerate, loops, entries⟩
  | _ => none

/-- The descriptions that the data is a list of. -/
def many? (d : Data) : Option (List (ArtDescription α)) :=
  d.list?.bind fun items => items.mapM ofData?

/-- The one description that the data is. -/
def single? (d : Data) : Option (List (ArtDescription α)) :=
  (ofData? d).map fun description => [description]

/-- The descriptions that the data is. A list is read as a list of descriptions if it can be, and
else as the fields of one. -/
def listOfData? (d : Data) : Option (List (ArtDescription α)) :=
  many? d <|> single? d

end ArtDescription

namespace Art

/-- The art that a JSON text describes, if it does describe art. Its textures go into the library,
but only after all of the text has been read. -/
def load (text : String) : OptionT (StateM TextureLibrary) (List (Art α)) := do
  let data ← OptionT.mk (pure (Json.readWhole? text))
  let descriptions ← OptionT.mk (pure (ArtDescription.listOfData? data))
  OptionT.lift (modifyGet fun library => prepareAll library descriptions)

/-- The art that a JSON text describes, with the library that knows its textures. -/
def ofJson? (library : TextureLibrary) (text : String) : Option (List (Art α) × TextureLibrary) :=
  let (loaded, library) := (load text).run.run library
  loaded.map (·, library)

end Art

end SparkTrail
