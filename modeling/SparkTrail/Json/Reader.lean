import SparkTrail.Json.Token

/-! From JSON to data. -/
namespace SparkTrail.Json

open Text (Reading)

mutual

/-- A value at the start of the tokens. -/
def value (ts : List Token) : Option (Reading Token Data ts.length) :=
  match ts with
  | .null :: rest => some ⟨.null, rest, Reading.lt_cons rest⟩
  | .bool b :: rest => some ⟨.bool b, rest, Reading.lt_cons rest⟩
  | .number n :: rest => some ⟨.number n, rest, Reading.lt_cons rest⟩
  | .text t :: rest => some ⟨.text t, rest, Reading.lt_cons rest⟩
  | .beginList :: .endList :: rest => some ⟨.list [], rest, by simp +arith⟩
  | .beginList :: rest => do
    let items ← elements rest
    return (items.map .list).widen (Reading.le_cons rest)
  | .beginRecord :: .endRecord :: rest =>
    some ⟨.record [], rest, by simp +arith⟩
  | .beginRecord :: rest => do
    let fields ← members rest
    return (fields.map .record).widen (Reading.le_cons rest)
  | _ => none
  termination_by (ts.length, 0)

/-- The elements of a list that has some, up to its closing bracket. -/
def elements (ts : List Token) : Option (Reading Token (List Data) ts.length) := do
  let first ← value ts
  have := first.within
  match h : first.rest with
  | .endList :: rest => return ⟨[first.value], rest, by grind⟩
  | .comma :: rest =>
    have : rest.length < ts.length := by grind
    let more ← elements rest
    return (more.map (first.value :: ·)).widen (by omega)
  | _ => none
  termination_by (ts.length, 1)

/-- The fields of a record that has some, up to its closing brace. -/
def members (ts : List Token) : Option (Reading Token (List (Option String × Data)) ts.length) :=
  match ts with
  | .text name :: .colon :: ts => do
    let first ← value ts
    have := first.within
    match h : first.rest with
    | .endRecord :: rest =>
      return ⟨[(name, first.value)], rest, by grind⟩
    | .comma :: rest =>
      have : rest.length < ts.length := by grind
      let more ← members rest
      return (more.map ((name, first.value) :: ·)).widen (by grind)
    | _ => none
  | _ => none
  termination_by (ts.length, 1)

end

/-- The data that a text says, if the text is one JSON value with nothing but space around it. -/
def read? (text : String) : Option Data := do
  let all ← value (← tokens text.toList)
  if all.rest.isEmpty then some all.value else none

/-- What follows the name of a choice in JSON when a record is written for it. -/
def saysNothing : Data → Bool
  | .null => true
  | _ => false

/-- JSON lets a list that stands for a record hold nothing but the fields, and a field that nobody
asks for hold anything. -/
def convention : Data.Convention :=
  ⟨saysNothing, false, fun _ => true⟩

mutual

/-- How deep lists and records are nested. -/
def depth : Data → Nat
  | .list items => 1 + depthOfItems items
  | .record fields => 1 + depthOfFields fields
  | _ => 0

/-- The greatest depth of some values. -/
def depthOfItems : List Data → Nat
  | [] => 0
  | d :: ds => max (depth d) (depthOfItems ds)

/-- The greatest depth of the values of some fields. -/
def depthOfFields : List (Option String × Data) → Nat
  | [] => 0
  | (_, d) :: ds => max (depth d) (depthOfFields ds)

end

/-- The data that a text says, for readers that have to look at all of it before they can tell what
it is: every part must stand for something, and nothing may be nested 128 deep. -/
def readWhole? (text : String) : Option Data := do
  let data ← read? text
  if data.isSound && depth data < 128 then some data else none

end SparkTrail.Json
