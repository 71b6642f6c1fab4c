import SparkTrail.Pool

/-! The time of the frames, and the pool's share in a frame. -/
namespace SparkTrail

/-- The seconds of the last frame, and the seconds of all frames together as a double. -/
structure Clock (α : Type) where
  delta : α
  elapsed : Float
  deriving DecidableEq, Repr

variable {α : Type} [Scalar α]

/-- The clock before the first frame. -/
def Clock.start : Clock α :=
  ⟨0, 0⟩

/-- The clock after a frame of `dt` seconds. -/
def Clock.advance (clock : Clock α) (dt : α) : Clock α :=
  ⟨dt, clock.elapsed + Scalar.toDouble dt⟩

/-- The pool after the last frame of the clock. -/
def Pool.tick (pool : Pool α) (clock : Clock α) : Pool α :=
  (pool.update clock.delta).2

end SparkTrail
