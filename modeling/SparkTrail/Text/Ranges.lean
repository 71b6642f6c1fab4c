/-! Sets of characters as tables of ranges. -/
namespace SparkTrail.Text

/-- Whether a character's number is in one of the ranges, whose ends belong to them. -/
def isWithin (ranges : List (Nat × Nat)) (c : Char) : Bool :=
  ranges.any fun (low, high) => low ≤ c.toNat && c.toNat ≤ high

end SparkTrail.Text
