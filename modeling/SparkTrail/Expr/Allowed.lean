import SparkTrail.Expr.Function

/-! What may stand in a path expression. Everything else is dropped before parsing, without an
error, so text from outside can hold nothing but arithmetic. -/
namespace SparkTrail.Expr

/-- A character that may stand by itself. -/
def isAllowed (c : Char) : Bool :=
  c.isDigit || "+-*/(),. x".toList.contains c

/-- The names that may stand as a whole, in the order in which they are looked for. -/
def names : List (List Char) :=
  Builtin.table.map fun (name, _) => name.toList

/-- What is left of a text, and how many of its characters were dropped. -/
structure Filtered where
  text : List Char
  dropped : Nat
  deriving DecidableEq, Repr

/-- The text without what may not stand in it, from left to right: an allowed character is kept,
else the first listed name that starts here is kept, else the character is dropped. -/
def filter : List Char → Filtered
  | [] => ⟨[], 0⟩
  | c :: cs =>
    if isAllowed c then
      let r := filter cs
      ⟨c :: r.text, r.dropped⟩
    else
      match names.find? (·.isPrefixOf (c :: cs)) with
      | some name =>
        let r := filter (cs.drop (name.length - 1))
        ⟨name ++ r.text, r.dropped⟩
      | none =>
        let r := filter cs
        ⟨r.text, r.dropped + 1⟩
  termination_by cs => cs.length

end SparkTrail.Expr
