import SparkTrail.Text.Quoted

/-! Textures by name. Particles hold textures as numbered names; pictures are somebody else's. -/
namespace SparkTrail

/-- A texture: its number in the library, for which there is no bound, and its name. The number zero
is the empty texture's. -/
structure Texture where
  id : Nat
  name : String
  deriving DecidableEq, Repr, Inhabited

/-- The texture to show where there is no frame. -/
def Texture.empty : Texture :=
  ⟨0, ""⟩

/-- Whether a texture is the empty one. -/
def Texture.isEmpty (t : Texture) : Bool :=
  t.id == 0

/-- A texture as shown to a developer. -/
def Texture.describe (t : Texture) : String :=
  if t.isEmpty then "TextureHandle(EMPTY)"
  else "TextureHandle(" ++ toString t.id ++ ", " ++ Text.quoted t.name ++ ")"

/-- The names that textures were asked for, in the order of the first time. A texture's number is
its place in this order, counted from one, so a name keeps its number for good. Numbers have no
bound here; that a counter of 32 bits gives out the same ones up to its last is
`Proofs.Texture.Table`. -/
structure TextureLibrary where
  names : List String
  deriving DecidableEq, Repr

namespace TextureLibrary

/-- A library without textures. -/
def empty : TextureLibrary :=
  ⟨[]⟩

/-- The texture of a name, if the name was asked for before. -/
def find? (library : TextureLibrary) (name : String) : Option Texture :=
  (library.names.idxOf? name).map fun i => ⟨i + 1, name⟩

/-- The texture of a name, which gets the next number if it is new. -/
def intern (library : TextureLibrary) (name : String) : Texture × TextureLibrary :=
  match library.find? name with
  | some texture => (texture, library)
  | none => (⟨library.names.length + 1, name⟩, ⟨library.names ++ [name]⟩)

/-- How many textures there are, the empty one not counted. -/
def size (library : TextureLibrary) : Nat :=
  library.names.length

end TextureLibrary

end SparkTrail
