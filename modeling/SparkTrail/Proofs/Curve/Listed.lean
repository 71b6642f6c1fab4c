import SparkTrail.Proofs.Curve.Sorting
import SparkTrail.Curve.Json
import SparkTrail.Proofs.Json.Pretty

/-!
# Curves listed in JSON

A curve in JSON has its keyframes as they are listed. Nothing sorts them, so it is the curve that
adding them one by one would make only if they are listed in order of time; any other list is taken
as well, and values are then looked up in a curve that is not in order.
-/
namespace SparkTrail

def Interpolation.name : Interpolation → String
  | .linear => "Linear"
  | .step => "Step"

theorem Interpolation.ofData_name (i : Interpolation) :
    Interpolation.ofData? (.text (some i.name)) = some i := by
  cases i <;> rfl

def Keyframe.data (k : Keyframe Number) : Data :=
  .record [(some "time", .number (some k.time)), (some "value", .number (some k.value))]

def Keyframe.rounded {α : Type} [Scalar α] (k : Keyframe Number) : Keyframe α :=
  ⟨k.time.toScalar, k.value.toScalar⟩

theorem Keyframe.ofData_data {α : Type} [Scalar α] (k : Keyframe Number) :
    Keyframe.ofData? k.data = some (k.rounded : Keyframe α) := rfl

def Keyframe.whole (k : Keyframe UInt64) : Keyframe Number :=
  ⟨.whole k.time.toNat, .whole k.value.toNat⟩

def Keyframe.document (k : Keyframe UInt64) : Document :=
  .record [(⟨"time".toList, by decide, by decide⟩, .leaf (.nat k.time.toNat k.time.toNat_lt_size)),
    (⟨"value".toList, by decide, by decide⟩, .leaf (.nat k.value.toNat k.value.toNat_lt_size))]

namespace Curve

open Scalar

/-- The record that stands for a curve, where the interpolation may be left out. -/
def data (i : Option Interpolation) (ks : List (Keyframe Number)) : Data :=
  .record ((some "keyframes", .list (ks.map Keyframe.data)) ::
    i.toList.map fun i => (some "interpolation", .text (some i.name)))

theorem ofData_keyframes {α : Type} [Scalar α] (ks : List (Keyframe Number)) :
    (ks.map Keyframe.data).mapM Keyframe.ofData? =
      some (ks.map (Keyframe.rounded : Keyframe Number → Keyframe α)) := by
  induction ks with
  | nil => rfl
  | cons k ks ih =>
    rw [List.map_cons, List.mapM_cons, ih]
    rfl

theorem fields_data (i : Option Interpolation) (ks : List (Keyframe Number)) :
    (data i ks).fields? ["keyframes", "interpolation"] =
      some [some (.list (ks.map Keyframe.data)), i.map fun i => .text (some i.name)] := by
  cases i <;> rfl

/-- A record for a curve gives its keyframes as they are listed. -/
theorem ofData_data {α : Type} [Scalar α] (i : Option Interpolation) (ks : List (Keyframe Number)) :
    ofData? (data i ks) = some (⟨ks.map Keyframe.rounded, i.getD .linear⟩ : Curve α) := by
  rw [ofData?, fields_data]
  show ((ks.map Keyframe.data).mapM Keyframe.ofData? >>= _) = _
  rw [ofData_keyframes]
  cases i with
  | none => rfl
  | some i =>
    show (Interpolation.ofData? (.text (some i.name)) >>= _) = _
    rw [Interpolation.ofData_name]
    rfl

/-! ## Texts that list keyframes -/

def listName : Word := ⟨"keyframes".toList, by decide, by decide⟩

/-- A text that lists keyframes of whole numbers. -/
def listText (ks : List (Keyframe UInt64)) : String :=
  String.ofList (Json.prettyListField listName (ks.map Keyframe.document))

theorem read_listText (ks : List (Keyframe UInt64)) :
    Json.read? (listText ks) = some (data none (ks.map Keyframe.whole)) := by
  rw [listText, Json.read_prettyListField, data, List.map_map, List.map_map]
  rfl

variable {text : String} {i : Option Interpolation} {ks : List (Keyframe Number)}

/-- A JSON text that lists keyframes, at any times that are numbers, gives a curve with these
keyframes as they are listed. It is the curve that adding them one by one makes, which is in order,
if and only if they are in order as listed; it takes a stable sort to make it that curve. -/
theorem listed_as_given (hread : Json.read? text = some (data i ks))
    (hks : ∀ k ∈ ks, (k.time.toScalar : Float32).isNaN = false) :
    let built : Curve Float32 := (empty (i.getD .linear)).addAll (ks.map Keyframe.rounded)
    built.keyframes.Pairwise (fun k l => k.time ≤ l.time) ∧
    ∃ c : Curve Float32, ofJson? text = some c ∧ c.keyframes = ks.map Keyframe.rounded ∧
      built = { c with keyframes := sortByTime c.keyframes } ∧
      (c = built ↔ c.keyframes.Pairwise fun k l => k.time ≤ l.time) := by
  intro built
  have hall : ∀ k ∈ ks.map Keyframe.rounded, IsNumber (k : Keyframe Float32).time := by
    intro k hk
    obtain ⟨k, hmem, rfl⟩ := List.mem_map.mp hk
    exact Single.isNumber_iff.mpr (hks k hmem)
  have hbuilt : built = ⟨sortByTime (ks.map Keyframe.rounded), i.getD .linear⟩ :=
    addAll_empty (i.getD .linear) hall
  refine ⟨?_, ⟨ks.map Keyframe.rounded, i.getD .linear⟩, ?_, rfl, hbuilt, ?_⟩
  · rw [hbuilt]
    exact pairwise_sortByTime hall
  · rw [ofJson?, hread]
    exact ofData_data i ks
  · rw [hbuilt, mk.injEq, and_iff_left rfl, eq_comm]
    exact sortByTime_eq_self_iff hall

/-- The ends of a straight line, listed from its start. -/
theorem listed_as_given_line :
    let ks : List (Keyframe UInt64) := [⟨0, 50⟩, ⟨1, 150⟩]
    (∀ k ∈ ks.map Keyframe.whole, (k.time.toScalar : Float32).isNaN = false) ∧
      ofJson? (listText ks) = some (line 50 150 : Curve Float32) := by
  intro ks
  have hks : ∀ k ∈ ks.map Keyframe.whole, (k.time.toScalar : Float32).isNaN = false := by decide
  obtain ⟨-, c, hc, hkeyframes, -, hbuilt⟩ := listed_as_given (read_listText ks) hks
  have hsorted : c.keyframes.Pairwise fun k l => k.time ≤ l.time := by
    rw [hkeyframes]
    decide
  refine ⟨hks, ?_⟩
  rw [hc, hbuilt.mpr hsorted]
  decide

/-- The ends of a straight line, listed from its end: halfway, the curve that is read is at its end
still, and the one that adding them makes is between them. -/
theorem listed_unsorted :
    let ks : List (Keyframe UInt64) := [⟨1, 0⟩, ⟨0, 10⟩]
    let listed : Curve Float32 := ⟨[⟨1, 0⟩, ⟨0, 10⟩], .linear⟩
    let built : Curve Float32 := (empty .linear).addAll listed.keyframes
    Json.read? (listText ks) = some (data none (ks.map Keyframe.whole)) ∧
      ofJson? (listText ks) = some listed ∧
      (¬ listed.keyframes.Pairwise fun k l => k.time ≤ l.time) ∧
      listed.sample? 0.5 = some 0 ∧ built.sample? 0.5 = some 5 := by
  intro ks listed built
  refine ⟨read_listText ks, ?_, by decide, by decide, by decide⟩
  rw [ofJson?, read_listText]
  exact (ofData_data none (ks.map Keyframe.whole)).trans (by decide)

end Curve

end SparkTrail
