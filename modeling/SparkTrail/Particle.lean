import SparkTrail.Animation
import SparkTrail.Curve.Basic
import SparkTrail.Vector

/-! Animated particles: life, free motion, rotation, and the animation that goes with them. -/
namespace SparkTrail

/-- What moves a particle: its own velocity, or a path that it is set along. -/
inductive Motion where
  | free
  | path
  deriving DecidableEq, Repr

/-- Where a particle is in its life. -/
inductive Phase where
  | unborn
  | active
  | destroyed
  deriving DecidableEq, Repr

/-- A particle. Angles are in degrees and times in seconds; a `maxSpeed` that is not positive is no
limit. The speed curve gives the speed as a function of the progress through life, to be multiplied
by `speedMultiplier`. -/
structure Particle (α : Type) where
  position : Vector2 α
  velocity : Vector2 α
  acceleration : Vector2 α
  maxSpeed : α
  rotation : α
  rotationSpeed : α
  age : α
  maxLife : α
  speedCurve : Option (Curve α)
  speedMultiplier : α
  motion : Motion
  phase : Phase
  animation : Animation α
  deriving DecidableEq, Repr

namespace Particle

variable {α : Type} [Scalar α]

/-- A particle that does not live yet, at rest at the origin and with one second to live. -/
def unborn : Particle α :=
  { position := .zero
    velocity := .zero
    acceleration := .zero
    maxSpeed := 0
    rotation := 0
    rotationSpeed := 0
    age := 0
    maxLife := 1
    speedCurve := none
    speedMultiplier := 1
    motion := .free
    phase := .unborn
    animation := .empty }

/-- Whether the particle is alive. -/
def isActive (p : Particle α) : Bool :=
  p.phase == .active

/-- The particle at the start of a life in free motion, playing the art from its first frame if
there is any. What it is launched with stays as it was written before. -/
def activate (p : Particle α) (art : Option (Art α)) : Particle α :=
  let animation :=
    match art with
    | some art => p.animation.play art
    | none => .empty
  { p with
    age := 0
    motion := .free
    phase := .active
    animation := animation.restart p.maxLife }

/-- The speed at a progress through life: the curve's if there is one, else that of the current
velocity. -/
def speedAt (p : Particle α) (progress : α) : α :=
  match p.speedCurve with
  | some curve => curve.sample progress * p.speedMultiplier
  | none => p.velocity.length

/-- The velocity of free motion after a step of `dt` seconds. A curve sets the speed in the current
direction; without one, the velocity is accelerated up to the speed limit. -/
def velocityAfter (p : Particle α) (progress dt : α) : Vector2 α :=
  if p.speedCurve.isSome then p.velocity.direction.scale (p.speedAt progress)
  else
    let velocity := p.velocity + p.acceleration.scale dt
    if 0 < p.maxSpeed then velocity.atMost p.maxSpeed else velocity

/-- The particle moved by its own velocity for `dt` seconds. -/
def drift (p : Particle α) (progress dt : α) : Particle α :=
  let velocity := p.velocityAfter progress dt
  { p with velocity, position := p.position + velocity.scale dt }

/-- The particle turned for `dt` seconds. -/
def spin (p : Particle α) (dt : α) : Particle α :=
  if Scalar.isZero p.rotationSpeed then p
  else { p with rotation := p.rotation + p.rotationSpeed * dt }

/-- The particle `dt` seconds later, and its progress through life, from zero up to but not
including one. There is no progress once its life is over, and then nothing but its age and its
phase is changed. -/
def update (p : Particle α) (dt : α) : Option α × Particle α :=
  let age := p.age + dt
  if p.maxLife ≤ age ∨ age < 0 then (none, { p with age, phase := .destroyed })
  else
    let progress := age / p.maxLife
    let p := { p with age }
    let p := if p.motion = .free then p.drift progress dt else p
    let p := p.spin dt
    (some progress, { p with animation := p.animation.advance dt })

/-- The number that reports a progress, which is `-1` once life is over. -/
def report : Option α → α
  | some progress => progress
  | none => -1

/-- The particle at the end of its life, without what it shared with others. -/
def destroy (p : Particle α) : Particle α :=
  { p with phase := .destroyed, speedCurve := none, animation := .empty }

end Particle

end SparkTrail
