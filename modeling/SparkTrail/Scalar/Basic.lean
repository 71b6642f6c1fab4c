/-! The numbers that particles are simulated with.

The simulation is written once over a class of scalars. Programs run it at single-precision floats;
read at an exact field, the same definitions say what is true before rounding. -/
namespace SparkTrail

/-- Numbers with the operations of the simulation. Nothing is assumed of them: a scalar may be a
float with rounding, signed zeros and values that are not numbers. -/
class Scalar (α : Type) extends Zero α, One α, Neg α, Add α, Sub α, Mul α, Div α, LT α, LE α where
  /-- The order can be tested; both tests fail on a value that is not a number. -/
  decideLT : DecidableLT α
  /-- The order can be tested. -/
  decideLE : DecidableLE α
  /-- The number `m / 10 ^ n` for given `m` and `n`, rounded at most once. -/
  decimal : Nat → Nat → α
  /-- The remainder of a division whose quotient is rounded towards zero. -/
  rem : α → α → α
  /-- The square root. -/
  sqrt : α → α
  /-- The sine of an angle in radians. -/
  sin : α → α
  /-- The cosine of an angle in radians. -/
  cos : α → α
  /-- The radians in one degree. -/
  degree : α
  /-- Neither infinite nor without value. -/
  isFinite : α → Bool
  /-- The whole part of a number that is not negative, at most `2 ^ 64 - 1`. -/
  whole : α → Nat
  /-- The same number as a double. -/
  toDouble : α → Float
  /-- The scalar nearest to a double. -/
  ofDouble : Float → α

namespace Scalar

variable {α : Type} [Scalar α]

instance (a b : α) : Decidable (a < b) :=
  decideLT a b

instance (a b : α) : Decidable (a ≤ b) :=
  decideLE a b

/-- A whole number as a scalar. -/
def ofNat (n : Nat) : α :=
  decimal n 0

/-- The scalar itself if it is positive, else zero; zero too for a value that is not a number. -/
def atLeastZero (v : α) : α :=
  if 0 < v then v else 0

/-- Whether a scalar is zero, of either sign. -/
def isZero (v : α) : Bool :=
  v ≤ 0 && 0 ≤ v

end Scalar

end SparkTrail
