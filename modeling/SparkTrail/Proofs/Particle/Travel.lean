import SparkTrail.Proofs.Scalar.Exact
import SparkTrail.Proofs.Particle.Run
import SparkTrail.Scalar.Single

/-!
# Travel on a path

How far a particle on a path has come is a sum: each update that reports a progress adds the speed
at that progress times its own time, or nothing where that is negative. The speed is that of the
moment of activation, so of two particles under one curve both come equally far and are at the same
place, whatever would have moved them without the path.
-/
namespace SparkTrail.PathParticle

open Scalar

section Run

variable {α : Type} [Scalar α] {p q : PathParticle α} {path : Path} {speed : α → α} {dt : α}

/-- On a path, at a speed that depends on the progress through life only. -/
structure Paced (path : Path) (speed : α → α) (q : PathParticle α) : Prop where
  path_eq : q.path = some path
  motion_eq : q.base.motion = .path
  speedAt_eq : ∀ t, q.base.speedAt t = speed t

/-- What can be told of an update from outside: what it reports, how far the particle has come on
its path, where it is, and whether it lives. -/
structure Sighting (α : Type) where
  progress : Option α
  movement : α
  position : Vector2 α
  phase : Phase
  deriving DecidableEq, Repr

def sighting (result : Option α × PathParticle α) : Sighting α :=
  ⟨result.1, result.2.movement, result.2.base.position, result.2.base.phase⟩

theorem paced_activate (p : PathParticle α) (art : Option (Art α)) (path : Path) :
    Paced path p.base.speedAt (p.activate art (some path)) :=
  ⟨rfl, rfl, fun _ => rfl⟩

/-- Neither the velocity nor the curve changes on a path. -/
theorem Paced.update (h : Paced path speed q) (dt : α) : Paced path speed (q.update dt).2 := by
  by_cases hx : q.base.Expires dt
  · rw [update_of_expires hx]
    exact ⟨h.path_eq, h.motion_eq, h.speedAt_eq⟩
  · rw [update_of_path h.path_eq h.motion_eq hx]
    exact ⟨h.path_eq, h.motion_eq, h.speedAt_eq⟩

theorem sighting_of_expires (hx : q.base.Expires dt) :
    sighting (q.update dt) = ⟨none, q.movement, q.base.position, .destroyed⟩ := by
  rw [update_of_expires hx]
  rfl

theorem Paced.sighting_update (h : Paced path speed q) (hx : ¬ q.base.Expires dt) :
    let progress := (q.base.age + dt) / q.base.maxLife
    let movement := q.movement + atLeastZero (speed progress * dt)
    sighting (q.update dt) =
      ⟨some progress, movement, q.positionOn path movement, q.base.phase⟩ := by
  intro progress movement
  have hmovement : movement = q.movement + atLeastZero (q.base.speedAt progress * dt) := by
    rw [h.speedAt_eq]
  rw [update_of_path h.path_eq h.motion_eq hx, hmovement]
  rfl

theorem Paced.initial_update (h : Paced path speed q) (dt : α) :
    (q.update dt).2.initialPosition = q.initialPosition ∧
      (q.update dt).2.initialRotation = q.initialRotation := by
  by_cases hx : q.base.Expires dt
  · rw [update_of_expires hx]
    exact ⟨rfl, rfl⟩
  · rw [update_of_path h.path_eq h.motion_eq hx]
    exact ⟨rfl, rfl⟩

/-! ## The distance -/

/-- The updates by these times that report a progress, from the first to the last: what they report,
and their times. -/
def liveSteps (p : PathParticle α) : List α → List (α × α)
  | [] => []
  | dt :: dts =>
    ((p.update dt).1.map fun progress => (progress, dt)).toList ++ (p.update dt).2.liveSteps dts

/-- The movement after one more live step: the speed at its progress times its time is added, and a
negative distance counts as none. -/
def further (speed : α → α) (movement : α) : α × α → α
  | (progress, dt) =>
    let distance := speed progress * dt
    movement + if 0 < distance then distance else 0

theorem Paced.afterAll (h : Paced path speed q) (dts : List α) :
    Paced path speed (q.afterAll dts) := by
  induction dts generalizing q with
  | nil => exact h
  | cons dt dts ih => exact ih (h.update dt)

/-- The distance is a fold over the live steps; updates that report the end add nothing. -/
theorem Paced.movement_afterAll (h : Paced path speed q) (dts : List α) :
    (q.afterAll dts).movement = (q.liveSteps dts).foldl (further speed) q.movement := by
  induction dts generalizing q with
  | nil => rfl
  | cons dt dts ih =>
    have hstep : (q.update dt).2.movement = (((q.update dt).1.map fun progress =>
        (progress, dt)).toList).foldl (further speed) q.movement := by
      by_cases hx : q.base.Expires dt
      · rw [update_of_expires hx]
        rfl
      · rw [update_fst, Particle.update_of_not_expires hx]
        exact congrArg Sighting.movement (h.sighting_update hx)
    rw [liveSteps, List.foldl_append, ← hstep]
    exact ih (h.update dt)

/-! ## Two particles under one curve -/

def sightings (p : PathParticle α) : List α → List (Sighting α)
  | [] => []
  | dt :: dts => sighting (p.update dt) :: (p.update dt).2.sightings dts

/-- At the same point of a travel along the same path at the same speed. -/
structure Abreast (path : Path) (speed : α → α) (p q : PathParticle α) : Prop where
  left : Paced path speed p
  right : Paced path speed q
  coeval : Particle.Coeval p.base q.base
  position_eq : p.base.position = q.base.position
  movement_eq : p.movement = q.movement
  initialPosition_eq : p.initialPosition = q.initialPosition
  initialRotation_eq : p.initialRotation = q.initialRotation

/-- Two particles abreast cannot be told apart by an update. -/
theorem Abreast.sighting_eq (h : Abreast path speed p q) (dt : α) :
    sighting (p.update dt) = sighting (q.update dt) := by
  have hexpires := h.coeval.expires_iff dt
  by_cases hx : p.base.Expires dt
  · rw [sighting_of_expires hx, sighting_of_expires (hexpires.mp hx), h.movement_eq, h.position_eq]
  · rw [h.left.sighting_update hx, h.right.sighting_update (mt hexpires.mpr hx), h.coeval.age_eq,
      h.coeval.maxLife_eq, h.coeval.phase_eq, h.movement_eq, positionOn, positionOn,
      h.initialPosition_eq, h.initialRotation_eq]

/-- Two particles abreast stay so. -/
theorem Abreast.update (h : Abreast path speed p q) (dt : α) :
    Abreast path speed (p.update dt).2 (q.update dt).2 := by
  have hseen := h.sighting_eq dt
  have hleft := (coeval_update h.coeval dt).2
  have hright := (coeval_update (.refl q.base) dt).2
  obtain ⟨hposition, hrotation⟩ := h.left.initial_update dt
  obtain ⟨hposition', hrotation'⟩ := h.right.initial_update dt
  refine ⟨h.left.update dt, h.right.update dt, hleft.trans hright.symm,
    congrArg Sighting.position hseen, congrArg Sighting.movement hseen, ?_, ?_⟩
  · rw [hposition, hposition', h.initialPosition_eq]
  · rw [hrotation, hrotation', h.initialRotation_eq]

theorem Abreast.sightings_eq (h : Abreast path speed p q) (dts : List α) :
    p.sightings dts = q.sightings dts := by
  induction dts generalizing p q with
  | nil => rfl
  | cons dt dts ih => rw [sightings, sightings, h.sighting_eq dt, ih (h.update dt)]

/-- Of two particles activated on one path under one curve, where they are, how they are turned and
how long they may live decides all that can be told of their travel. Neither their velocity and what
would change it, nor how fast they turn, nor what they show plays a part. (Where the curve is read
at what is not a number, it counts as zero for both.) -/
theorem sightings_under_curve {curve : Curve α} (hp : p.base.speedCurve = some curve)
    (hq : q.base.speedCurve = some curve)
    (hmultiplier : p.base.speedMultiplier = q.base.speedMultiplier)
    (hposition : p.base.position = q.base.position) (hrotation : p.base.rotation = q.base.rotation)
    (hlife : p.base.maxLife = q.base.maxLife) (art art' : Option (Art α)) (path : Path)
    (dts : List α) :
    (p.activate art (some path)).sightings dts = (q.activate art' (some path)).sightings dts := by
  have hspeed (t : α) : q.base.speedAt t = p.base.speedAt t := by
    rw [Particle.speedAt, Particle.speedAt, hp, hq, hmultiplier]
  have hright := paced_activate q art' path
  have hstart : Abreast path p.base.speedAt (p.activate art (some path))
      (q.activate art' (some path)) :=
    { left := paced_activate p art path
      right := ⟨hright.path_eq, hright.motion_eq, fun t => (hright.speedAt_eq t).trans (hspeed t)⟩
      coeval := ⟨rfl, hlife, rfl⟩
      position_eq := hposition
      movement_eq := rfl
      initialPosition_eq := hposition
      initialRotation_eq := hrotation }
  exact hstart.sightings_eq dts

/-- One of two particles without a velocity and without art, and one that would be off at once and
would turn: a step back in time takes neither of them back, and their lives end in one update. -/
theorem sightings_under_curve_four_seconds :
    let path : Path := ⟨.var, "x"⟩
    let art : Art Float32 := ⟨[⟨1, "a"⟩, ⟨2, "b"⟩], 10, 0.2, true⟩
    let p : PathParticle Float32 := { unborn with
      base := { Particle.unborn with maxLife := 4, speedCurve := some (.line 1 3) } }
    let q : PathParticle Float32 := { p with
      base := { p.base with
        velocity := ⟨3, 4⟩
        acceleration := ⟨1, 0⟩
        maxSpeed := 2
        rotationSpeed := 90 } }
    let dts : List Float32 := [1, -0.5, 1, 5]
    let seen := (q.activate (some art) (some path)).sightings dts
    (p.activate none (some path)).sightings dts = seen ∧
      seen.map (·.progress) = [some 0.25, some 0.125, some 0.375, none] ∧
      seen.map (·.movement) = [1.5, 1.5, 3.25, 3.25] ∧
      seen.map (·.phase) = [.active, .active, .active, .destroyed] := by
  intro path art p q dts seen
  refine ⟨?_, by decide +kernel, by decide +kernel, by decide +kernel⟩
  exact sightings_under_curve (p := p) (q := q) rfl rfl rfl rfl rfl rfl none (some art) path dts

end Run

/-! ## Before rounding -/

/-- No step takes the distance back. -/
theorem le_foldl_further (speed : ℝ → ℝ) (movement : ℝ) (steps : List (ℝ × ℝ)) :
    movement ≤ steps.foldl (further speed) movement := by
  induction steps generalizing movement with
  | nil => exact le_rfl
  | cons step steps ih =>
    obtain ⟨progress, dt⟩ := step
    have hdistance : 0 ≤ if 0 < speed progress * dt then speed progress * dt else 0 := by
      split
      case isTrue h => exact h.le
      case isFalse h => exact le_rfl
    calc movement ≤ further speed movement (progress, dt) := le_add_of_nonneg_right hdistance
      _ ≤ steps.foldl (further speed) (further speed movement (progress, dt)) := ih _

/-- How far a particle has come since it was activated on a path is the sum, from zero and in order,
of the distances of its live steps: the curve's speed at the progress of the step, or the length of
the velocity that the particle was activated with, times the step's time, and nothing where that is
negative. (A curve that is read at what is not a number counts as zero.) Before rounding no updates
take the particle back, whatever the signs of the curve, of the multiplier and of the times. -/
theorem movement_accumulates :
    (∀ (α : Type) [Scalar α] (p : PathParticle α) (art : Option (Art α)) (path : Path)
      (dts : List α),
      let q := p.activate art (some path)
      let speed progress :=
        match p.base.speedCurve with
        | some curve => curve.sample progress * p.base.speedMultiplier
        | none => p.base.velocity.length
      (q.afterAll dts).movement = (q.liveSteps dts).foldl (further speed) 0) ∧
    ∀ (p : PathParticle ℝ) (art : Option (Art ℝ)) (path : Path) (dts more : List ℝ),
      let q := p.activate art (some path)
      0 ≤ (q.afterAll dts).movement ∧
        (q.afterAll dts).movement ≤ (q.afterAll (dts ++ more)).movement := by
  refine ⟨fun α _ p art path dts => (paced_activate p art path).movement_afterAll dts, ?_⟩
  intro p art path dts more q
  have hq : Paced path p.base.speedAt q := paced_activate p art path
  have happend : q.afterAll (dts ++ more) = (q.afterAll dts).afterAll more := List.foldl_append
  rw [happend, (hq.afterAll dts).movement_afterAll more, hq.movement_afterAll dts]
  exact ⟨le_foldl_further _ _ _, le_foldl_further _ _ _⟩

/-- With four seconds to live, at the speed five of its velocity: a step back in time does not take
the particle back. Under a curve that starts below zero it does not move at a speed of zero, and
moves on where the speed and the time are both negative. -/
theorem movement_accumulates_four_seconds :
    let path : Path := ⟨.var, "x"⟩
    let p : PathParticle Float32 := { unborn with
      base := { Particle.unborn with maxLife := 4, velocity := ⟨3, 4⟩ } }
    let curve : Curve Float32 := .line (-1) 3
    let p' : PathParticle Float32 := { p with
      base := { p.base with speedCurve := some curve, speedMultiplier := 2 } }
    let q := p.activate none (some path)
    let q' := p'.activate none (some path)
    let dts : List Float32 := [1, -0.5, 1, 5]
    q.liveSteps dts = [(0.25, 1), (0.125, -0.5), (0.375, 1)] ∧
      ((q.afterAll dts).movement =
          (q.liveSteps dts).foldl (further fun _ => p.base.velocity.length) 0 ∧
        (q.afterAll dts).movement = 10) ∧
      ((q'.afterAll dts).movement = (q'.liveSteps dts).foldl (further (curve.sample · * 2)) 0 ∧
        (q'.afterAll dts).movement = 1.5) := by
  intro path p curve p' q q' dts
  refine ⟨by decide +kernel, ⟨?_, by decide +kernel⟩, ?_, by decide +kernel⟩
  · exact movement_accumulates.1 Float32 p none path dts
  · exact movement_accumulates.1 Float32 p' none path dts

end SparkTrail.PathParticle
