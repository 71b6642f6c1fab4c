import SparkTrail.Proofs.Particle.Run
import SparkTrail.Proofs.Scalar.Sign

/-!
# The path determines the position

A particle on a path is where the path leads from the place and the rotation that it was activated
with. Neither its velocity nor the rotation it has taken since plays a part, and the update that
ends its life leaves it where it was.
-/
namespace SparkTrail

namespace PathParticle

section Run

variable {α : Type} [Scalar α] {p q : PathParticle α} {path : Path} {dt : α}

/-- What stays as it was in `p` at an activation on a path. -/
structure Follows (p : PathParticle α) (path : Path) (q : PathParticle α) : Prop where
  path_eq : q.path = some path
  motion_eq : q.base.motion = .path
  initialPosition_eq : q.initialPosition = p.base.position
  initialRotation_eq : q.initialRotation = p.base.rotation
  velocity_eq : q.base.velocity = p.base.velocity
  acceleration_eq : q.base.acceleration = p.base.acceleration

theorem follows_activate (p : PathParticle α) (art : Option (Art α)) (path : Path) :
    Follows p path (p.activate art (some path)) :=
  ⟨rfl, rfl, rfl, rfl, rfl, rfl⟩

theorem Follows.update (h : Follows p path q) (dt : α) : Follows p path (q.update dt).2 := by
  by_cases hx : q.base.Expires dt
  · rw [update_of_expires hx]
    exact { h with }
  · rw [update_of_path h.path_eq h.motion_eq hx]
    exact { h with }

theorem Follows.afterAll (h : Follows p path q) (dts : List α) :
    Follows p path (q.afterAll dts) := by
  induction dts generalizing q with
  | nil => exact h
  | cons dt dts ih => exact ih (h.update dt)

/-- An update that does not end the life puts the particle on its path. -/
theorem Follows.position_update (h : Follows p path q) (hx : ¬ q.base.Expires dt) :
    (q.update dt).2.base.position = p.base.position + Vector2.rotate
      ⟨(q.update dt).2.movement,
        Scalar.ofDouble (path.offset (Scalar.toDouble (q.update dt).2.movement))⟩
      p.base.rotation := by
  rw [update_of_path h.path_eq h.motion_eq hx, ← h.initialPosition_eq, ← h.initialRotation_eq]
  rfl

end Run

/-- A number below zero is reported exactly where an update ends the life. -/
theorem report_lt_zero_iff (p : PathParticle Float32) (dt : Float32) :
    Particle.report (p.update dt).1 < 0 ↔ p.base.Expires dt := by
  by_cases hx : p.base.Expires dt
  · rw [update_of_expires hx]
    have hneg : (-1 : Float32) < 0 := by decide
    exact iff_of_true hneg hx
  · rw [update_fst, Particle.update_of_not_expires hx]
    refine iff_of_false ?_ hx
    obtain ⟨hlife, hage⟩ := not_or.mp hx
    intro hneg
    exact hlife (Single.le_of_div_lt_zero hage hneg)

/-- At every moment after an activation on a path: what the particle was activated with is kept,
free motion is suppressed, an update that reports no negative number puts the particle where the
path leads from there, and one that reports a negative number changes nothing that can be seen. (A
curve that is read at what is not a number counts as zero.) -/
theorem position_on_path (p : PathParticle Float32) (art : Option (Art Float32)) (path : Path)
    (dts : List Float32) :
    let q := (p.activate art (some path)).afterAll dts
    (q.initialPosition = p.base.position ∧ q.initialRotation = p.base.rotation ∧
      q.path = some path ∧ q.base.motion = .path ∧ q.base.velocity = p.base.velocity ∧
      q.base.acceleration = p.base.acceleration) ∧
    ∀ dt, let r := q.update dt
      (¬ Particle.report r.1 < 0 → r.2.base.position = r.2.initialPosition + Vector2.rotate
        ⟨r.2.movement, (path.offset r.2.movement.toFloat).toFloat32⟩ r.2.initialRotation) ∧
      (Particle.report r.1 < 0 → r.2.base.position = q.base.position ∧
        r.2.movement = q.movement ∧ r.2.base.rotation = q.base.rotation ∧
        r.2.base.animation = q.base.animation) := by
  intro q
  have hq : Follows p path q := (follows_activate p art path).afterAll dts
  refine ⟨⟨hq.initialPosition_eq, hq.initialRotation_eq, hq.path_eq, hq.motion_eq, hq.velocity_eq,
    hq.acceleration_eq⟩, ?_⟩
  intro dt r
  have hr : Follows p path r.2 := hq.update dt
  rw [report_lt_zero_iff]
  refine ⟨?_, ?_⟩
  · intro hx
    rw [hr.initialPosition_eq, hr.initialRotation_eq]
    exact hq.position_update hx
  · intro hx
    have hlast : r = _ := update_of_expires hx
    rw [hlast]
    exact ⟨rfl, rfl, rfl, rfl⟩

/-- Activated at a right angle and with two seconds to live, at a speed of five: the second update
puts the particle seven and a half ahead and twice as far aside, turned by the right angle although
the particle has turned on since. A third, as long as the whole life, leaves it there. -/
theorem position_on_path_expiry :
    let p : PathParticle Float32 := { unborn with
      base := { Particle.unborn with
        position := ⟨1, 2⟩, maxLife := 2, velocity := ⟨3, 4⟩, rotation := 90
        rotationSpeed := 90 } }
    let path : Path := ⟨.binary .add .var .var, "x+x"⟩
    let q := (p.activate none (some path)).afterAll [0.5]
    let r := (q.update 1).2
    let sin := (90 * Scalar.degree : Float32).sin
    let cos := (90 * Scalar.degree : Float32).cos
    let aside := ((7.5 : Float32).toFloat + (7.5 : Float32).toFloat).toFloat32
    (¬ Particle.report (q.update 1).1 < 0 ∧ r.base.rotation = 225 ∧
      r.base.position = ⟨1 + (7.5 * cos - aside * sin), 2 + (7.5 * sin + aside * cos)⟩) ∧
    Particle.report (r.update 2).1 < 0 ∧ (r.update 2).2.base.position = r.base.position := by
  intro p path q r sin cos aside
  have hlives : ¬ Particle.report (q.update 1).1 < 0 := by decide
  have hends : Particle.report (r.update 2).1 < 0 := by decide
  have hmovement : r.movement = 7.5 := by decide +kernel
  have hoffset : (path.offset (7.5 : Float32).toFloat).toFloat32 = aside := rfl
  obtain ⟨-, hq⟩ := position_on_path p none path [0.5]
  obtain ⟨⟨hposition, hrotation, -⟩, hr⟩ := position_on_path p none path [0.5, 1]
  have hplace : r.initialPosition = ⟨1, 2⟩ := hposition
  have hangle : r.initialRotation = 90 := hrotation
  have hturned := (hq 1).1 hlives
  rw [hmovement, hoffset, hplace, hangle] at hturned
  exact ⟨⟨hlives, by decide +kernel, hturned⟩, hends, ((hr 2).2 hends).1⟩

end PathParticle

end SparkTrail
