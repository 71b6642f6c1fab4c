import SparkTrail.Scalar.Basic

/-! Single-precision floats as scalars.

Every operation rounds once to the nearest float. The remainder is exact: over the common unit
`2 ^ -149` every finite float is a whole number, and the remainder of two of them is again a
float. -/
namespace SparkTrail.Single

/-- The magnitude of a finite float in units of `2 ^ -149`. -/
def units (v : Float32) : Nat :=
  let bits := v.toBits.toNat
  let stored := bits / Nat.pow 2 23 % Nat.pow 2 8
  let fraction := bits % Nat.pow 2 23
  if stored = 0 then fraction else (fraction + Nat.pow 2 23) * Nat.pow 2 (stored - 1)

/-- The non-negative float of so many units, if there is one: with at most 24 digits in base two
between its first and its last one, and below `2 ^ 277`. -/
def ofUnits (n : Nat) : Float32 :=
  if n < Nat.pow 2 23 then Float32.ofBits n.toUInt32
  else
    let excess := n.log2 - 23
    Float32.ofBits ((excess + 1) * Nat.pow 2 23 + (n / Nat.pow 2 excess - Nat.pow 2 23)).toUInt32

/-- The remainder of `a` divided by `b` with the quotient rounded towards zero. It has the sign of
`a`; an infinite `a` and a zero `b` leave no remainder, and an infinite `b` leaves `a`. -/
def rem (a b : Float32) : Float32 :=
  if a.isNaN || b.isNaN || a.isInf || b == 0 then 0 / 0
  else if b.isInf then a
  else
    let r := ofUnits (units a % units b)
    if a.toBits.toNat < Nat.pow 2 31 then r else -r

/-- Single-precision floats as scalars. -/
instance : Scalar Float32 where
  zero := 0
  one := 1
  decideLT := inferInstance
  decideLE := inferInstance
  decimal m n := Float32.ofScientific m true n
  rem := rem
  sqrt := Float32.sqrt
  sin := Float32.sin
  cos := Float32.cos
  degree := Float32.ofScientific 3141592653589793 true 15 / 180
  isFinite := Float32.isFinite
  whole v := v.toUInt64.toNat
  toDouble := Float32.toFloat
  ofDouble := Float.toFloat32

end SparkTrail.Single
