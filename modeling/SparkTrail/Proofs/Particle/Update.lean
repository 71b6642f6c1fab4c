import SparkTrail.PathParticle

/-!
# What an update does

An update either ends a life, and then changes the age and the phase only, or it goes through all
the parts of a particle once. One equation for each case says what every field is afterwards; the
rest of the theory cites these.
-/
namespace SparkTrail

variable {α : Type} [Scalar α]

namespace Particle

variable {p : Particle α} {dt progress : α}

/-- Whether an update by `dt` seconds ends the life. -/
def Expires (p : Particle α) (dt : α) : Prop :=
  p.maxLife ≤ p.age + dt ∨ p.age + dt < 0

instance (p : Particle α) (dt : α) : Decidable (p.Expires dt) :=
  inferInstanceAs (Decidable (_ ∨ _))

def carried (p : Particle α) (progress dt : α) : Particle α :=
  if p.motion = .free then p.drift progress dt else p

theorem update_of_expires (h : p.Expires dt) :
    p.update dt = (none, { p with age := p.age + dt, phase := .destroyed }) :=
  if_pos h

/-- An update within the life, field by field. -/
theorem update_of_not_expires (h : ¬ p.Expires dt) :
    p.update dt = (some ((p.age + dt) / p.maxLife), { p with
      age := p.age + dt
      velocity := (p.carried ((p.age + dt) / p.maxLife) dt).velocity
      position := (p.carried ((p.age + dt) / p.maxLife) dt).position
      rotation := (p.spin dt).rotation
      animation := p.animation.advance dt }) := by
  refine (if_neg h).trans ?_
  -- neither the motion nor the rotation looks at the age
  cases hm : p.motion with
  | free =>
    cases hz : Scalar.isZero p.rotationSpeed with
    | true =>
      simp [carried, hm, spin, drift, hz]
      exact ⟨rfl, rfl⟩
    | false =>
      simp [carried, hm, spin, drift, hz]
      exact ⟨rfl, rfl⟩
  | path =>
    cases hz : Scalar.isZero p.rotationSpeed with
    | true => simp [carried, hm, spin, hz]
    | false => simp [carried, hm, spin, hz]

/-- On a path nothing but the age, the rotation and the animation goes on by itself. -/
theorem update_of_path_motion (hm : p.motion = .path) (h : ¬ p.Expires dt) :
    p.update dt = (some ((p.age + dt) / p.maxLife), { p with
      age := p.age + dt
      rotation := (p.spin dt).rotation
      animation := p.animation.advance dt }) := by
  have hcarried : p.carried ((p.age + dt) / p.maxLife) dt = p := by
    rw [carried, hm]
    rfl
  rw [update_of_not_expires h, hcarried]

end Particle

namespace PathParticle

variable {p : PathParticle α} {path : Path} {dt : α}

/-- A path does not change what an update reports. -/
theorem update_fst (p : PathParticle α) (dt : α) : (p.update dt).1 = (p.base.update dt).1 := by
  rw [update]
  cases hu : p.base.update dt with
  | mk progress? base =>
    cases progress? with
    | none => rfl
    | some progress => cases p.path <;> rfl

theorem phase_update (p : PathParticle α) (dt : α) :
    (p.update dt).2.base.phase = (p.base.update dt).2.phase := by
  rw [update]
  cases hu : p.base.update dt with
  | mk progress? base =>
    cases progress? with
    | none => rfl
    | some progress => cases p.path <;> rfl

theorem update_of_expires (h : p.base.Expires dt) :
    p.update dt = (none, { p with
      base := { p.base with age := p.base.age + dt, phase := .destroyed } }) := by
  rw [update, Particle.update_of_expires h]

/-- An update within the life of a particle on a path: where it is comes from the path alone. -/
theorem update_of_path (hp : p.path = some path) (hm : p.base.motion = .path)
    (h : ¬ p.base.Expires dt) :
    p.update dt = (some ((p.base.age + dt) / p.base.maxLife),
      { p with base := { p.base with
          age := p.base.age + dt
          rotation := (p.base.spin dt).rotation
          animation := p.base.animation.advance dt } }.follow path
        ((p.base.age + dt) / p.base.maxLife) dt) := by
  rw [update, Particle.update_of_path_motion hm h, hp]

end PathParticle

end SparkTrail
