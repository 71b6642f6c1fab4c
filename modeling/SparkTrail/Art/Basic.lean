import SparkTrail.Scalar.Basic
import SparkTrail.Texture

/-! Animated art: what the frames of a particle look like and how fast they follow each other.

Art is described by a list of texture entries, some of them repeated. It is prepared once: names
become textures, repeats are written out, and the timing is settled. All particles of that kind then
share the result. -/
namespace SparkTrail

/-- How fast frames follow each other: so many per second, or so that they last as long as the
particle lives. -/
inductive Framerate (α : Type) where
  | fixed (perSecond : α)
  | matchLife
  deriving DecidableEq, Repr

/-- A texture in a description: by name, or one at hand already. -/
inductive TextureRef where
  | named (name : String)
  | given (texture : Texture)
  deriving DecidableEq, Repr

/-- One or several successive frames with the same texture. -/
inductive FrameEntry where
  | once (ref : TextureRef)
  | repeated (ref : TextureRef) (count : Float)
  deriving DecidableEq, Repr

/-- A description of animated art. -/
structure ArtDescription (α : Type) where
  framerate : Framerate α
  loops : Bool
  entries : List FrameEntry
  deriving DecidableEq, Repr

/-- Art that is ready to be played: one texture per frame, frames per second, and seconds from the
first frame to the end of the last. A negative framerate stands for frames that last as long as the
particle lives. -/
structure Art (α : Type) where
  textures : List Texture
  framerate : α
  duration : α
  loops : Bool
  deriving DecidableEq, Repr

/-- The least whole number that a count does not exceed, or `2 ^ 64 - 1` where that is less. -/
def roundUp (count : Float) : Nat :=
  let whole := count.toUInt64
  if whole.toFloat < count then min (whole.toNat + 1) (UInt64.size - 1) else whole.toNat

/-- The number of frames that a count stands for: a positive count is rounded up and a negative one
is none. Zero, and a count that is not a number, is one frame. -/
def repeatCount (count : Float) : Nat :=
  if 0 < count then roundUp count
  else if count < 0 then 0
  else 1

/-- The texture that is meant, with the library that knows its name. -/
def TextureRef.resolve (library : TextureLibrary) : TextureRef → Texture × TextureLibrary
  | .named name => library.intern name
  | .given texture => (texture, library)

/-- The frames of an entry. Its name is registered even if there are no frames. -/
def FrameEntry.expand (library : TextureLibrary) : FrameEntry → List Texture × TextureLibrary
  | .once ref =>
    let (texture, library) := ref.resolve library
    ([texture], library)
  | .repeated ref count =>
    let (texture, library) := ref.resolve library
    (List.replicate (repeatCount count) texture, library)

/-- The frames of entries one after the other. -/
def expandAll (library : TextureLibrary) : List FrameEntry → List Texture × TextureLibrary
  | [] => ([], library)
  | entry :: entries =>
    let (first, library) := entry.expand library
    let (more, library) := expandAll library entries
    (first ++ more, library)

namespace Art

variable {α : Type} [Scalar α]

/-- Frames per second where the description gives no positive number. -/
def defaultFramerate : α :=
  Scalar.ofNat 60

/-- The number of frames. -/
def frameCount (art : Art α) : Nat :=
  art.textures.length

/-- Whether the frames last as long as the particle lives. -/
def matchesLife (art : Art α) : Bool :=
  art.framerate < 0

/-- Frames with the timing they are described with. Frames that last a whole life never loop, and
have no duration before that life is known. -/
def ofFrames (textures : List Texture) (framerate : Framerate α) (loops : Bool) : Art α :=
  match framerate with
  | .matchLife => ⟨textures, -1, 0, false⟩
  | .fixed perSecond =>
    let framerate := if 0 < perSecond then perSecond else defaultFramerate
    ⟨textures, framerate, Scalar.ofNat textures.length / framerate, loops⟩

/-- The art that is described, with the library that knows its textures. -/
def prepare (library : TextureLibrary) (description : ArtDescription α) : Art α × TextureLibrary :=
  let (textures, library) := expandAll library description.entries
  (ofFrames textures description.framerate description.loops, library)

/-- The art of several descriptions, each with the textures of those before it registered. -/
def prepareAll (library : TextureLibrary) :
    List (ArtDescription α) → List (Art α) × TextureLibrary
  | [] => ([], library)
  | description :: descriptions =>
    let (art, library) := prepare library description
    let (more, library) := prepareAll library descriptions
    (art :: more, library)

end Art

end SparkTrail
