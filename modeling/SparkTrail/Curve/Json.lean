import SparkTrail.Curve.Basic
import SparkTrail.Json.Reader

/-! Curves in JSON: a record of `keyframes`, each with `time` and `value`, and `interpolation`,
which may be left out. The keyframes are taken in the order in which they are written. -/
namespace SparkTrail

variable {α : Type} [Scalar α]

/-- The keyframe that the data is. -/
def Keyframe.ofData? (d : Data) : Option (Keyframe α) := do
  match ← d.fields? ["time", "value"] with
  | [some time, some value] => return ⟨(← time.number?).toScalar, (← value.number?).toScalar⟩
  | _ => none

/-- The interpolation that the data is. -/
def Interpolation.ofData? (d : Data) : Option Interpolation := do
  match ← d.choice? Json.saysNothing with
  | "Linear" => return .linear
  | "Step" => return .step
  | _ => none

namespace Curve

/-- The curve that the data is. -/
def ofData? (d : Data) : Option (Curve α) := do
  match ← d.fields? ["keyframes", "interpolation"] with
  | [some keyframes, interpolation] =>
    let keyframes ← (← keyframes.list?).mapM Keyframe.ofData?
    let interpolation ← (interpolation.map Interpolation.ofData?).getD (some .linear)
    return ⟨keyframes, interpolation⟩
  | _ => none

/-- The curve that a JSON text describes. -/
def ofJson? (text : String) : Option (Curve α) := do
  ofData? (← Json.read? text)

end Curve

end SparkTrail
