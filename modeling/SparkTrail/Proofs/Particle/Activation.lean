import SparkTrail.Proofs.Pool.Slots
import SparkTrail.Scalar.Single

/-!
# An activation forgets

What an activation makes of a particle depends on what the particle would be launched with, and on
nothing else about it: not on its age or its phase, not on the frames it played, their timing
included, and not on the path it followed. What it would be launched with is kept, so a particle may
be activated over and over.
-/
namespace SparkTrail

variable {α : Type}

/-- What a particle would have to be launched with, to be where and as it is. -/
def Particle.toLaunch (p : Particle α) : Launch α :=
  { position := p.position
    velocity := p.velocity
    acceleration := p.acceleration
    maxSpeed := p.maxSpeed
    rotation := p.rotation
    rotationSpeed := p.rotationSpeed
    maxLife := p.maxLife
    speedCurve := p.speedCurve
    speedMultiplier := p.speedMultiplier }

theorem Launch.apply_toLaunch (p : Particle α) : p.toLaunch.apply p = p := rfl

namespace PathParticle

variable [Scalar α] {p q : PathParticle α}

theorem toLaunch_activate (p : PathParticle α) (art : Option (Art α)) (path : Option Path) :
    (p.activate art path).base.toLaunch = p.base.toLaunch := rfl

/-- To activate a particle is to launch a newborn one in its place. -/
theorem activate_eq_launch (p : PathParticle α) (art : Option (Art α)) (path : Option Path) :
    p.activate art path = unborn.launch p.base.toLaunch art path := by
  rw [← launch_eq_unborn p, launch, Launch.apply_toLaunch]

/-- Particles that would be launched with the same are the same once they are activated with the
same art and path, however else they differ. In particular an activation takes back every earlier
one, the same one too. -/
theorem activate_forgets (h : p.base.toLaunch = q.base.toLaunch) (art : Option (Art α))
    (path : Option Path) :
    p.activate art path = q.activate art path ∧
      ∀ earlier before, (p.activate earlier before).activate art path = p.activate art path := by
  refine ⟨?_, fun earlier before => ?_⟩
  · rw [activate_eq_launch, h, ← activate_eq_launch]
  · rw [activate_eq_launch, toLaunch_activate, ← activate_eq_launch]

/-- One particle has not lived, and another one, in its place, had a life of two seconds on a path
and is now to live for four as well: frames that last as long as the particle lives are then timed
for four seconds in both. -/
theorem activate_forgets_timing :
    let art : Art Float32 := ⟨[⟨1, "a"⟩, ⟨2, "b"⟩], -1, 0, false⟩
    let p : PathParticle Float32 := { unborn with base := { Particle.unborn with maxLife := 4 } }
    let q : PathParticle Float32 :=
      { base :=
          { p.base with
            age := 2
            motion := .path
            phase := .destroyed
            animation := (Animation.empty.play art).restart 2 }
        path := some ⟨.var, "x"⟩
        initialRotation := 45
        initialPosition := ⟨7, 7⟩
        movement := 3 }
    p.base.toLaunch = q.base.toLaunch ∧ q.base.animation.framerate = 1 ∧
      p.activate (some art) none = q.activate (some art) none ∧
      (q.activate (some art) none).base.animation.framerate = 0.5 ∧
      (q.activate (some art) none).activate (some art) none = q.activate (some art) none := by
  intro art p q
  have hlaunched : p.base.toLaunch = q.base.toLaunch := rfl
  obtain ⟨hsame, -⟩ := activate_forgets hlaunched (some art) none
  obtain ⟨-, hagain⟩ := activate_forgets hlaunched.symm (some art) none
  exact ⟨hlaunched, by decide, hsame, by decide +kernel, hagain (some art) none⟩

end PathParticle

end SparkTrail
