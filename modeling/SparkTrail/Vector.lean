import SparkTrail.Scalar.Basic

/-! Vectors in the plane. Sums are taken in the order written, which matters for rounding. -/
namespace SparkTrail

/-- A point or a displacement in the plane. -/
structure Vector2 (α : Type) where
  x : α
  y : α
  deriving DecidableEq, Repr, Inhabited

namespace Vector2

variable {α : Type} [Scalar α]

/-- The origin. -/
def zero : Vector2 α :=
  ⟨0, 0⟩

/-- The sum, coordinate by coordinate. -/
def add (v w : Vector2 α) : Vector2 α :=
  ⟨v.x + w.x, v.y + w.y⟩

instance : Add (Vector2 α) :=
  ⟨add⟩

/-- Both coordinates times a factor. -/
def scale (v : Vector2 α) (k : α) : Vector2 α :=
  ⟨v.x * k, v.y * k⟩

/-- The square of the length. -/
def lengthSquared (v : Vector2 α) : α :=
  v.x * v.x + v.y * v.y

/-- The length. -/
def length (v : Vector2 α) : α :=
  Scalar.sqrt v.lengthSquared

/-- The vector of length one in the same direction, or the origin when the vector is too short or
too long for that to be computed. -/
def direction (v : Vector2 α) : Vector2 α :=
  let inverse := 1 / v.length
  if Scalar.isFinite inverse && 0 < inverse then v.scale inverse else zero

/-- The vector, shortened to the length `limit` if it is longer. -/
def atMost (v : Vector2 α) (limit : α) : Vector2 α :=
  let square := v.lengthSquared
  if limit * limit < square then
    let root := Scalar.sqrt square
    ⟨limit * (v.x / root), limit * (v.y / root)⟩
  else v

/-- The vector turned around the origin by an angle in degrees. -/
def rotate (v : Vector2 α) (degrees : α) : Vector2 α :=
  let angle := degrees * Scalar.degree
  let sin := Scalar.sin angle
  let cos := Scalar.cos angle
  ⟨v.x * cos - v.y * sin, v.x * sin + v.y * cos⟩

end Vector2

end SparkTrail
