/-! The shortest decimal notation of a double that reads back as the same double.

A double stands for every real number nearer to it than to its neighbours. Among the decimal
numbers in that interval the ones with the fewest significant digits are wanted, and of those the
one nearest to the double itself. The arithmetic is exact, over natural numbers. -/
namespace SparkTrail.Decimal

/-- A positive double together with the ends of its rounding interval, as numerators over one
common `scale`: the double is `mid / scale` and the interval runs from `low / scale` to
`high / scale`, with both ends in it iff `closed`. -/
structure Rounding where
  low : Nat
  mid : Nat
  high : Nat
  scale : Nat
  closed : Bool

/-- The rounding interval of a finite positive double. The gap below a power of two is half the
gap above it; an interval contains its ends when the significand is even, because ties are rounded
to even. -/
def Rounding.ofFloat (v : Float) : Rounding :=
  let bits := v.toBits.toNat
  let stored := bits / Nat.pow 2 52 % Nat.pow 2 11
  let fraction := bits % Nat.pow 2 52
  let significand := if stored = 0 then fraction else fraction + Nat.pow 2 52
  -- the double is `significand * 2 ^ (power - 1074)`
  let power := if stored = 0 then 0 else stored - 1
  let below := if fraction = 0 && 1 < stored then 1 else 2
  { low := (4 * significand - below) * Nat.pow 2 power
    mid := 4 * significand * Nat.pow 2 power
    high := (4 * significand + 2) * Nat.pow 2 power
    scale := 4 * Nat.pow 2 1074
    closed := significand % 2 == 0 }

/-- Whether `n / scale` lies in the rounding interval. -/
def Rounding.contains (r : Rounding) (n : Nat) : Bool :=
  if r.closed then r.low ≤ n && n ≤ r.high else r.low < n && n < r.high

/-- The multiple of `unit` in the interval that is nearest to the double, as the factor of `unit`;
of two equally near the larger. `unit` is over the same scale. -/
def Rounding.nearest? (r : Rounding) (unit : Nat) : Option Nat :=
  let down := r.mid / unit
  let up := down + 1
  match r.contains (down * unit), r.contains (up * unit) with
  | true, true => some (if up * unit - r.mid ≤ r.mid - down * unit then up else down)
  | true, false => some down
  | false, true => some up
  | false, false => none

/-- The digits of the shortest notation with the power of ten that their last digit counts. The
unit goes down one power of ten at a time from `10 ^ high`, for at most `fuel` further powers, so
the first unit that has a multiple in the interval gives the fewest digits. -/
def Rounding.search (r : Rounding) (high : Int) : (fuel : Nat) → Nat × Int
  | 0 => (0, high)
  | fuel + 1 =>
    let found :=
      if 0 ≤ high then r.nearest? (Nat.pow 10 high.toNat * r.scale)
      -- below one, both sides are multiplied by the power instead
      else
        let lift := Nat.pow 10 (-high).toNat
        { r with low := r.low * lift, mid := r.mid * lift, high := r.high * lift }.nearest? r.scale
    match found with
    | some digits => if digits = 0 then r.search (high - 1) fuel else (digits, high)
    | none => r.search (high - 1) fuel

/-- The notation of `digits * 10 ^ power` without an exponent: zeros are added behind the digits, or
the dot is put among or before them. -/
def positional (digits : Nat) (power : Int) : String :=
  let text := (toString digits).toList
  if 0 ≤ power then String.ofList (text ++ List.replicate power.toNat '0')
  else
    let places := (-power).toNat
    let padded := List.replicate (places + 1 - text.length) '0' ++ text
    let whole := padded.length - places
    String.ofList (padded.take whole ++ '.' :: padded.drop whole)

/-- A double in the shortest notation that reads back as the same double, never with an
exponent. -/
def shortest (v : Float) : String :=
  if v.isNaN then "NaN"
  else if v.isInf then if v < 0 then "-inf" else "inf"
  else
    let sign := if v.toBits.toNat < Nat.pow 2 63 then "" else "-"
    if v == 0 then sign ++ "0"
    else
      let (digits, power) := (Rounding.ofFloat v.abs).search 308 640
      sign ++ positional digits power

end SparkTrail.Decimal
