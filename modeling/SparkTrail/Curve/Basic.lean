import SparkTrail.Scalar.Basic

/-! Curves: a property of a particle as a function of the progress through its life. -/
namespace SparkTrail

/-- How values between two keyframes are found: on the straight line between them, or the earlier
one until the later one is reached. -/
inductive Interpolation where
  | linear
  | step
  deriving DecidableEq, Repr, Inhabited

/-- The value of a property at one moment of life, where 0 is birth and 1 is death. -/
structure Keyframe (α : Type) where
  time : α
  value : α
  deriving DecidableEq, Repr

/-- A curve through keyframes, which are in order of time when they were added one by one. -/
structure Curve (α : Type) where
  keyframes : List (Keyframe α)
  interpolation : Interpolation
  deriving DecidableEq, Repr

namespace Curve

variable {α : Type} [Scalar α]

/-- A curve without keyframes. -/
def empty (interpolation : Interpolation) : Curve α :=
  ⟨[], interpolation⟩

/-- The keyframes at the start of the curve up to the time `t`. -/
def upTo (c : Curve α) (t : α) : List (Keyframe α) :=
  c.keyframes.takeWhile fun k => k.time ≤ t

/-- The other keyframes: from the first one later than `t`. -/
def after (c : Curve α) (t : α) : List (Keyframe α) :=
  c.keyframes.dropWhile fun k => k.time ≤ t

/-- The curve with one more keyframe, behind those of the same time. -/
def add (c : Curve α) (time value : α) : Curve α :=
  { c with keyframes := c.upTo time ++ ⟨time, value⟩ :: c.after time }

/-- The curve that always has the same value. -/
def constant (value : α) : Curve α :=
  (empty .linear).add 0 value

/-- The straight line between two values. -/
def line (first last : α) : Curve α :=
  ((empty .linear).add 0 first).add 1 last

/-- The value between two neighbouring keyframes. -/
def between (interpolation : Interpolation) (earlier later : Keyframe α) (t : α) : α :=
  match interpolation with
  | .step => earlier.value
  | .linear =>
    let span := later.time - earlier.time
    if span ≤ 0 then later.value
    else earlier.value + (later.value - earlier.value) * ((t - earlier.time) / span)

/-- The value at `t`: the first keyframe's up to its time, the last one's from its time on, and
else a value between the neighbours of `t`. There are no neighbours, and no value, where `t` cannot
be compared with the keyframes. A curve without keyframes is zero. -/
def sample? (c : Curve α) (t : α) : Option α :=
  match c.keyframes.head?, c.keyframes.getLast? with
  | some first, some last =>
    if t ≤ first.time then some first.value
    else if last.time ≤ t then some last.value
    else do
      let earlier ← (c.upTo t).getLast?
      let later ← (c.after t).head?
      return between c.interpolation earlier later t
  | _, _ => some 0

/-- The value at `t`, zero where there is none. A program that takes the neighbours of `t` by their
indices stops with a fault there, because it has no earlier one; this is the case at a time that is
not a number if the curve has keyframes. -/
def sample (c : Curve α) (t : α) : α :=
  (c.sample? t).getD 0

end Curve

end SparkTrail
