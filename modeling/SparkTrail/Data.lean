import SparkTrail.Scalar.Basic

/-! What a structured document says, in whatever notation it is written, and how the parts of a
record are found in it. -/
namespace SparkTrail

/-- A number in a document: whole if it is written as one, else the double it stands for. -/
inductive Number where
  | whole (n : Int)
  | real (v : Float)
  deriving DecidableEq, Repr

/-- A value in a document. Some numbers and texts can be written but do not stand for anything, such
as a number beyond all doubles. The last constructor is for values of kinds that nothing is read
from. -/
inductive Data where
  | null
  | bool (b : Bool)
  | number (n : Option Number)
  | text (t : Option String)
  | list (items : List Data)
  | record (fields : List (Option String × Data))
  | other
  deriving Repr, Inhabited

/-- A number as a scalar, rounded once. -/
def Number.toScalar {α : Type} [Scalar α] : Number → α
  | .whole n => if n < 0 then -Scalar.ofNat n.natAbs else Scalar.ofNat n.natAbs
  | .real v => Scalar.ofDouble v

/-- A number as a double. -/
def Number.toDouble : Number → Float
  | .whole n => if n < 0 then -Float.ofNat n.natAbs else Float.ofNat n.natAbs
  | .real v => v

namespace Data

/-- The truth value that the data is. -/
def bool? : Data → Option Bool
  | .bool b => some b
  | _ => none

/-- The number that the data is. -/
def number? : Data → Option Number
  | .number n => n
  | _ => none

/-- The text that the data is. -/
def text? : Data → Option String
  | .text t => t
  | _ => none

/-- The list that the data is. -/
def list? : Data → Option (List Data)
  | .list items => some items
  | _ => none

/-- The whole number from 0 to `2 ^ 64 - 1` that the data is. -/
def nat? (d : Data) : Option Nat :=
  match d.number? with
  | some (.whole n) => if 0 ≤ n ∧ n < Int.pow 2 64 then some n.toNat else none
  | _ => none

/-- The values of the named fields in the order of the names, `none` for a field that is not there.
Fields with other names are passed over, but every name must stand for a text, and no named field
may be there twice. -/
def namedFields? (names : List String) (fields : List (Option String × Data)) :
    Option (List (Option Data)) :=
  let keys := fields.map (·.1)
  if keys.all Option.isSome && names.all fun name => keys.count (some name) ≤ 1 then
    some (names.map fun name => fields.lookup (some name))
  else none

/-- The values of the named fields. The data is a record, or a list of the values in the order of
the names, where the last ones may be missing. -/
def fields? (names : List String) : Data → Option (List (Option Data))
  | .record fields => namedFields? names fields
  | .list items =>
    if items.length ≤ names.length then
      some (items.map some ++ List.replicate (names.length - items.length) none)
    else none
  | _ => none

mutual

/-- Whether every number and every text stands for something. -/
def isSound : Data → Bool
  | .number n => n.isSome
  | .text t => t.isSome
  | .list items => areSound items
  | .record fields => areSoundFields fields
  | _ => true

/-- Whether every number and every text in some values stands for something. -/
def areSound : List Data → Bool
  | [] => true
  | d :: ds => isSound d && areSound ds

/-- Whether every name, number and text in some fields stands for something. -/
def areSoundFields : List (Option String × Data) → Bool
  | [] => true
  | (name, d) :: ds => name.isSome && isSound d && areSoundFields ds

end

/-- What a notation leaves open: which values say nothing further behind the name of a choice,
whether a list that stands for a record may go on behind the last field, with values that are not
even looked at, and which values may stand in a field that nobody asks for. -/
structure Convention where
  saysNothing : Data → Bool
  allowsMore : Bool
  canPass : Data → Bool

/-- The values of the named fields, as a notation writes them. -/
def Convention.fields? (c : Convention) (names : List String) : Data → Option (List (Option Data))
  | .record fields =>
    if fields.all fun (key, d) => key.any names.contains || c.canPass d then
      Data.fields? names (.record fields)
    else none
  | .list items =>
    let items := if c.allowsMore then items.take names.length else items
    Data.fields? names (.list items)
  | d => d.fields? names

/-- The name that the data is, out of an enumeration: a text, or a record of one field with that
name and a value that says nothing further. -/
def choice? (saysNothing : Data → Bool) : Data → Option String
  | .text t => t
  | .record [(some name, payload)] => if saysNothing payload then some name else none
  | _ => none

end Data

end SparkTrail
