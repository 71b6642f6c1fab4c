import SparkTrail.Particle
import SparkTrail.Path.Basic

/-! Particles that follow a path.

The path gives the sideways offset as a function of the distance travelled. Distance and offset make
a displacement, which is turned by the rotation that the particle was activated with and added to
the position that it was activated at. A particle without a path moves freely. -/
namespace SparkTrail

/-- A particle with the path it follows, if any. -/
structure PathParticle (α : Type) where
  base : Particle α
  path : Option Path
  initialRotation : α
  initialPosition : Vector2 α
  movement : α

namespace PathParticle

variable {α : Type} [Scalar α]

/-- A particle that does not live yet. -/
def unborn : PathParticle α :=
  { base := .unborn, path := none, initialRotation := 0, initialPosition := .zero, movement := 0 }

/-- Whether the particle is alive. -/
def isActive (p : PathParticle α) : Bool :=
  p.base.isActive

/-- The particle at the start of a life along the path, from where it is and as it is turned now. -/
def activate (p : PathParticle α) (art : Option (Art α)) (path : Option Path) : PathParticle α :=
  let base := p.base.activate art
  { base := { base with motion := if path.isSome then .path else .free }
    path
    initialRotation := base.rotation
    initialPosition := base.position
    movement := 0 }

/-- The position on a path after a distance. -/
def positionOn (p : PathParticle α) (path : Path) (movement : α) : Vector2 α :=
  let offset := Scalar.ofDouble (path.offset (Scalar.toDouble movement))
  p.initialPosition + Vector2.rotate ⟨movement, offset⟩ p.initialRotation

/-- The particle moved along a path for `dt` seconds. It never moves backwards: a negative distance
counts as none. -/
def follow (p : PathParticle α) (path : Path) (progress dt : α) : PathParticle α :=
  let movement := p.movement + Scalar.atLeastZero (p.base.speedAt progress * dt)
  { p with movement, base := { p.base with position := p.positionOn path movement } }

/-- The particle `dt` seconds later, and its progress through life, as for a particle without a
path. -/
def update (p : PathParticle α) (dt : α) : Option α × PathParticle α :=
  let (progress, base) := p.base.update dt
  let p := { p with base }
  match progress, p.path with
  | some progress, some path => (some progress, p.follow path progress dt)
  | progress, _ => (progress, p)

/-- The particle at the end of its life, without what it shared with others. -/
def destroy (p : PathParticle α) : PathParticle α :=
  { base := p.base.destroy
    path := none
    initialRotation := 0
    initialPosition := .zero
    movement := 0 }

end PathParticle

end SparkTrail
