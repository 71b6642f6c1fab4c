import SparkTrail.Art.Basic

/-! A particle's animation: which frame it shows, and how the frames go on with time. -/
namespace SparkTrail

/-- An animation that is being played. Times are in seconds, and a negative framerate stands for
frames that last as long as the particle lives. -/
structure Animation (α : Type) where
  textures : List Texture
  framerate : α
  duration : α
  elapsed : α
  loops : Bool
  texture : Texture
  deriving DecidableEq, Repr

namespace Animation

variable {α : Type} [Scalar α]

/-- The animation without frames. -/
def empty : Animation α :=
  ⟨[], 0, 0, 0, false, .empty⟩

/-- What a frame's time is advanced by before it is rounded down, so that rounding errors do not
hold a frame back. -/
def frameMargin : α :=
  Scalar.decimal 1 7

/-- How long before its end an animation stops that does not loop, which is to be within its last
frame. -/
def endMargin : α :=
  Scalar.decimal 1 6

/-- The number of frames. -/
def frameCount (a : Animation α) : Nat :=
  a.textures.length

/-- Whether the frames last as long as the particle lives. -/
def matchesLife (a : Animation α) : Bool :=
  a.framerate < 0

/-- The animation with the frames and the timing of the art. -/
def play (a : Animation α) (art : Art α) : Animation α :=
  { a with
    textures := art.textures
    framerate := art.framerate
    duration := art.duration
    loops := art.loops }

/-- The animation from its first frame on, for a particle that lives for `maxLife` seconds. Frames
that are to last as long as that get their timing here; without a life ahead they stand still. -/
def restart (a : Animation α) (maxLife : α) : Animation α :=
  let a :=
    if a.matchesLife then
      if 0 < maxLife then
        { a with duration := maxLife, framerate := Scalar.ofNat a.frameCount / maxLife }
      else { a with duration := 0, framerate := 0 }
    else a
  { a with elapsed := 0, texture := a.textures.headD .empty }

/-- The number of the frame at the elapsed time, counted from zero; it may lie behind the last
frame. There is none where the time or the framerate is negative or infinite. -/
def frameIndex? (a : Animation α) : Option Nat :=
  let frame := a.elapsed * a.framerate + frameMargin
  if !Scalar.isFinite frame || frame < 0 then none else some (Scalar.whole frame)

/-- The texture of the frame at the elapsed time. -/
def currentTexture (a : Animation α) : Texture :=
  (do let index ← a.frameIndex?
      a.textures[index]?).getD .empty

/-- The elapsed time after a step of `dt` seconds: past the end it wraps around if the animation
loops, and else stops short of the end. -/
def elapsedAfter (a : Animation α) (dt : α) : α :=
  let elapsed := a.elapsed + dt
  if a.duration < elapsed then
    if a.loops && 0 < a.duration then Scalar.rem elapsed a.duration
    else Scalar.atLeastZero (a.duration - endMargin)
  else elapsed

/-- The animation `dt` seconds later. -/
def advance (a : Animation α) (dt : α) : Animation α :=
  let a := { a with elapsed := a.elapsedAfter dt }
  { a with texture := a.currentTexture }

end Animation

end SparkTrail
