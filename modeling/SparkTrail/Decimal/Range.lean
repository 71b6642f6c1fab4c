/-! Which decimal numbers are too large to be doubles. -/
namespace SparkTrail.Decimal

/-- The least whole number that rounds to infinity: half a step beyond the largest double, where a
tie goes up. -/
def leastInfinite : Nat :=
  Nat.pow 2 1024 - Nat.pow 2 970

/-- Whether `n * 10 ^ power` rounds to a double and not to infinity. The number of its digits before
the dot settles all cases but one, so no large power is ever computed. -/
def isDouble (n : Nat) (power : Int) : Bool :=
  let places := ((Nat.toDigits 10 n).length : Int) + power
  n = 0 || places < 309 ||
    (places = 309 && n * Nat.pow 10 power.toNat < leastInfinite * Nat.pow 10 (-power).toNat)

end SparkTrail.Decimal
