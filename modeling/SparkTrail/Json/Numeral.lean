import SparkTrail.Data
import SparkTrail.Decimal.Literal

/-! Numbers as JSON writes them, and what they stand for.

A numeral without fraction and exponent is a whole number if it fits in 64 bits. Every other numeral
is a double, found in a fixed way that is fast and almost always, but not always, the nearest: as
many leading digits as fit in 64 bits are made a double, which is then multiplied or divided by a
power of ten. -/
namespace SparkTrail.Json

/-- The parts of a numeral: the sign, the digits before and after the dot, and the exponent, which
is a sign and digits. -/
structure Numeral where
  negative : Bool
  whole : List Char
  fraction : List Char
  exponent : Option (Bool × List Char)
  deriving DecidableEq, Repr

/-- Digits put behind a number as long as it stays below `2 ^ 64`, with the digits that are left. -/
def appendDigits (n : Nat) : List Char → Nat × List Char
  | [] => (n, [])
  | d :: ds =>
    let longer := 10 * n + (d.toNat - '0'.toNat)
    if longer < UInt64.size then appendDigits longer ds else (n, d :: ds)

/-- A double divided by a power of ten, in steps of `10 ^ 308` as far as needed. -/
def shrink (v : Float) (power : Nat) : Float :=
  if power ≤ 308 then v / Float.ofNat (Nat.pow 10 power)
  else if v == 0 then v
  else shrink (v / Float.ofNat (Nat.pow 10 308)) (power - 308)
  termination_by power

/-- The double for `n * 10 ^ power`. There is none if it would be infinite. -/
def scaled? (n : Nat) (power : Int) : Option Float :=
  let v := Float.ofNat n
  if power < 0 then some (shrink v power.natAbs)
  else if power ≤ 308 then
    let r := v * Float.ofNat (Nat.pow 10 power.natAbs)
    if r.isInf then none else some r
  else if v == 0 then some v
  else none

/-- The largest exponent that is computed with. -/
def maxExponent : Nat :=
  Nat.pow 2 31 - 1

/-- The double for `n * 10 ^ power` with a written exponent. With an exponent beyond all bounds it
is zero or nothing. -/
def withExponent? (n : Nat) (power : Int) : Option (Bool × List Char) → Option Float
  | none => scaled? n power
  | some (negative, digits) =>
    let exponent := Decimal.ofDigits digits
    if maxExponent < exponent then
      if negative || n = 0 then some 0 else none
    else if negative then scaled? n (power - exponent)
    else scaled? n (power + exponent)

/-- What a numeral stands for; nothing if it is beyond all doubles. Minus zero is a double. -/
def Numeral.value? (numeral : Numeral) : Option Number :=
  let (n, dropped) := appendDigits 0 numeral.whole
  if numeral.fraction.isEmpty && numeral.exponent.isNone && dropped.isEmpty &&
      (!numeral.negative || (0 < n && n ≤ Nat.pow 2 63)) then
    some (.whole (if numeral.negative then -(n : Int) else n))
  else do
    let (n, unused) := appendDigits n numeral.fraction
    let power := (dropped.length : Int) - (numeral.fraction.length - unused.length)
    let v ← withExponent? n power numeral.exponent
    return .real (if numeral.negative then -v else v)

end SparkTrail.Json
