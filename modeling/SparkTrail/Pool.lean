import SparkTrail.PathParticle

/-! A pool of particles in numbered slots. A slot whose particle has ended its life is used again
before a new slot is made. -/
namespace SparkTrail

/-- What a particle is launched with. -/
structure Launch (α : Type) where
  position : Vector2 α
  velocity : Vector2 α
  acceleration : Vector2 α
  maxSpeed : α
  rotation : α
  rotationSpeed : α
  maxLife : α
  speedCurve : Option (Curve α)
  speedMultiplier : α

/-- A pool: the particle in each slot, the slots to be used again with the next one first, and how
many slots there may be. -/
structure Pool (α : Type) where
  slots : List (PathParticle α)
  free : List Nat
  capacity : Nat

variable {α : Type} [Scalar α]

/-- At rest at the origin, with one second to live. -/
def Launch.default : Launch α :=
  { position := .zero
    velocity := .zero
    acceleration := .zero
    maxSpeed := 0
    rotation := 0
    rotationSpeed := 0
    maxLife := 1
    speedCurve := none
    speedMultiplier := 1 }

/-- The particle with all that it is launched with. -/
def Launch.apply (launch : Launch α) (p : Particle α) : Particle α :=
  { p with
    position := launch.position
    velocity := launch.velocity
    acceleration := launch.acceleration
    maxSpeed := launch.maxSpeed
    rotation := launch.rotation
    rotationSpeed := launch.rotationSpeed
    maxLife := launch.maxLife
    speedCurve := launch.speedCurve
    speedMultiplier := launch.speedMultiplier }

/-- The particle launched and activated. -/
def PathParticle.launch (p : PathParticle α) (launch : Launch α) (art : Option (Art α))
    (path : Option Path) : PathParticle α :=
  { p with base := launch.apply p.base }.activate art path

namespace Pool

/-- A pool without particles. -/
def empty (capacity : Nat) : Pool α :=
  ⟨[], [], capacity⟩

/-- A particle launched in a free slot, with the number of the slot. A full pool stays as it is. -/
def spawn (pool : Pool α) (launch : Launch α) (art : Option (Art α)) (path : Option Path) :
    Option Nat × Pool α :=
  match pool.free with
  | slot :: free =>
    (some slot,
      { pool with slots := pool.slots.modify slot (·.launch launch art path), free })
  | [] =>
    if pool.slots.length < pool.capacity then
      (some pool.slots.length,
        { pool with slots := pool.slots ++ [PathParticle.unborn.launch launch art path] })
    else (none, pool)

/-- The particle of a slot `dt` seconds later, and whether that ended its life. A particle that is
not alive stays as it is. -/
def stepSlot (dt : α) (p : PathParticle α) : Bool × PathParticle α :=
  if p.isActive then
    match p.update dt with
    | (some _, p) => (false, p)
    | (none, p) => (true, p.destroy)
  else (false, p)

/-- The particle of a slot after clearing, and whether that ended its life. -/
def clearSlot (p : PathParticle α) : Bool × PathParticle α :=
  if p.isActive then (true, p.destroy) else (false, p)

/-- The pool after the same step in every slot, and the number of lives that ended. Their slots are
to be used again, the one with the highest number first. -/
def sweep (step : PathParticle α → Bool × PathParticle α) (pool : Pool α) : Nat × Pool α :=
  let results := pool.slots.map step
  let retired := (results.zipIdx.filter fun (r, _) => r.1).map fun (_, slot) => slot
  (retired.length,
    { pool with slots := results.map (·.2), free := retired.reverse ++ pool.free })

/-- The pool `dt` seconds later, and the number of particles whose life ended. -/
def update (pool : Pool α) (dt : α) : Nat × Pool α :=
  pool.sweep (stepSlot dt)

/-- The pool with the lives of all its particles ended. -/
def clear (pool : Pool α) : Pool α :=
  (pool.sweep clearSlot).2

/-- The particle in a slot, if it is alive. -/
def get? (pool : Pool α) (slot : Nat) : Option (PathParticle α) :=
  pool.slots[slot]?.filter (·.isActive)

/-- The pool with the living particle in a slot changed. A change that ends the particle's life does
not give the slot back. There is nothing to change where no particle is alive. -/
def modify? (pool : Pool α) (slot : Nat) (change : PathParticle α → PathParticle α) :
    Option (Pool α) :=
  (pool.get? slot).map fun p => { pool with slots := pool.slots.set slot (change p) }

/-- How many slots are in use: those that are not free. -/
def activeCount (pool : Pool α) : Nat :=
  pool.slots.length - pool.free.length

/-- The living particles, each with its slot, in the order of the slots. -/
def live (pool : Pool α) : List (Nat × PathParticle α) :=
  (pool.slots.zipIdx.filter fun (p, _) => p.isActive).map fun (p, slot) => (slot, p)

end Pool

end SparkTrail
