import SparkTrail.Proofs.Curve.Checked
import SparkTrail.Proofs.Particle.Update

/-!
# Updating a particle with every access checked

An update divides by the lifetime and reads the curve only for a particle that lives on. So all that
it needs is that the curve is in order and that then the lifetime is positive and the progress a
number. A frame may have a number out of range, and is looked up all the same: there the texture is
the empty one.
-/
namespace SparkTrail

open Scalar

variable {α : Type} [Scalar α]

namespace Animation

/-- The texture of the frame at the elapsed time, read only where there is one. -/
def checkedTexture (a : Animation α) : Texture :=
  match a.frameIndex? with
  | some frame => if h : frame < a.textures.length then a.textures[frame] else .empty
  | none => .empty

def checkedAdvance (a : Animation α) (dt : α) : Animation α :=
  let a := { a with elapsed := a.elapsedAfter dt }
  { a with texture := a.checkedTexture }

/-- An index out of range shows the empty texture, so it makes no difference to test it first. -/
theorem checkedTexture_eq (a : Animation α) : a.checkedTexture = a.currentTexture := by
  rw [checkedTexture, currentTexture]
  cases a.frameIndex? with
  | none => rfl
  | some frame =>
    show _ = a.textures[frame]?.getD .empty
    dsimp only
    split
    case isTrue h => rw [List.getElem?_eq_getElem h, Option.getD_some]
    case isFalse h => rw [List.getElem?_eq_none (Nat.le_of_not_lt h), Option.getD_none]

theorem checkedAdvance_eq (a : Animation α) (dt : α) : a.checkedAdvance dt = a.advance dt := by
  rw [checkedAdvance, advance]
  dsimp only
  rw [checkedTexture_eq]

end Animation

namespace Particle

def checkedSpeedAt (p : Particle α) (progress : α) : Except Hazard α :=
  match p.speedCurve with
  | some curve => do return (← curve.checkedSample progress) * p.speedMultiplier
  | none => return p.velocity.length

/-- The velocity of free motion; only that under a curve reads anything. -/
def checkedVelocityAfter (p : Particle α) (progress dt : α) : Except Hazard (Vector2 α) :=
  if p.speedCurve.isSome then do return p.velocity.direction.scale (← p.checkedSpeedAt progress)
  else return p.velocityAfter progress dt

def checkedDrift (p : Particle α) (progress dt : α) : Except Hazard (Particle α) := do
  let velocity ← p.checkedVelocityAfter progress dt
  return { p with velocity, position := p.position + velocity.scale dt }

def checkedCarried (p : Particle α) (progress dt : α) : Except Hazard (Particle α) :=
  if p.motion = .free then p.checkedDrift progress dt else return p

def checkedUpdate (p : Particle α) (dt : α) : Except Hazard (Option α × Particle α) :=
  let age := p.age + dt
  if p.maxLife ≤ age ∨ age < 0 then return (none, { p with age, phase := .destroyed })
  else if 0 < p.maxLife then do
    let progress := age / p.maxLife
    let p ← { p with age }.checkedCarried progress dt
    let p := p.spin dt
    return (some progress, { p with animation := p.animation.checkedAdvance dt })
  else throw .noLifetime

/-- What an update by `dt` seconds needs. -/
structure Ready (p : Particle α) (dt : α) : Prop where
  inOrder : ∀ curve, p.speedCurve = some curve → curve.InOrder
  maxLife_pos : ¬ p.Expires dt → 0 < p.maxLife
  isNumber : ¬ p.Expires dt → IsNumber ((p.age + dt) / p.maxLife)

variable {p : Particle α} {progress dt : α}

/-- What an update reports is a number, and the curve stays. -/
theorem Ready.of_update {q : Particle α} (h : p.Ready dt) (hu : p.update dt = (some progress, q)) :
    IsNumber progress ∧ q.speedCurve = p.speedCurve := by
  by_cases hx : p.Expires dt
  · rw [update_of_expires hx] at hu
    cases hu
  · rw [update_of_not_expires hx] at hu
    obtain ⟨hprogress, rfl⟩ := Prod.mk.inj hu
    exact ⟨Option.some.inj hprogress ▸ h.isNumber hx, rfl⟩

section Progress

variable [Ordered α] (hcurve : ∀ curve, p.speedCurve = some curve → curve.InOrder)
  (hprogress : IsNumber progress)

include hcurve hprogress

theorem checkedSpeedAt_eq : p.checkedSpeedAt progress = .ok (p.speedAt progress) := by
  rw [checkedSpeedAt, speedAt]
  cases hc : p.speedCurve with
  | none => rfl
  | some curve =>
    dsimp only
    rw [(hcurve curve hc).checkedSample_eq hprogress]
    rfl

theorem checkedVelocityAfter_eq :
    p.checkedVelocityAfter progress dt = .ok (p.velocityAfter progress dt) := by
  rw [checkedVelocityAfter]
  by_cases hsome : p.speedCurve.isSome
  · rw [if_pos hsome, checkedSpeedAt_eq hcurve hprogress, velocityAfter, if_pos hsome]
    rfl
  · rw [if_neg hsome]
    rfl

theorem checkedDrift_eq : p.checkedDrift progress dt = .ok (p.drift progress dt) := by
  rw [checkedDrift, checkedVelocityAfter_eq hcurve hprogress]
  rfl

theorem checkedCarried_eq : p.checkedCarried progress dt = .ok (p.carried progress dt) := by
  rw [checkedCarried, carried]
  by_cases hm : p.motion = .free
  · rw [if_pos hm, if_pos hm]
    exact checkedDrift_eq hcurve hprogress
  · rw [if_neg hm, if_neg hm]
    rfl

end Progress

theorem checkedUpdate_eq [Ordered α] (h : p.Ready dt) : p.checkedUpdate dt = .ok (p.update dt) := by
  by_cases hx : p.Expires dt
  · rw [update_of_expires hx]
    exact if_pos hx
  · have hcarried : checkedCarried { p with age := p.age + dt } _ dt = .ok _ :=
      checkedCarried_eq h.inOrder (h.isNumber hx)
    have hupdate : p.update dt = _ := if_neg hx
    rw [hupdate]
    refine (if_neg hx).trans ((if_pos (h.maxLife_pos hx)).trans ?_)
    simp only [Animation.checkedAdvance_eq]
    rw [hcarried]
    rfl

end Particle

namespace PathParticle

/-- The particle moved on along a path by a distance. -/
def moved (p : PathParticle α) (path : Path) (distance : α) : PathParticle α :=
  let movement := p.movement + atLeastZero distance
  { p with movement, base := { p.base with position := p.positionOn path movement } }

def checkedUpdate (p : PathParticle α) (dt : α) : Except Hazard (Option α × PathParticle α) := do
  let (progress, base) ← p.base.checkedUpdate dt
  let p := { p with base }
  match progress, p.path with
  | some progress, some path => do
    let speed ← p.base.checkedSpeedAt progress
    return (some progress, p.moved path (speed * dt))
  | progress, _ => return (progress, p)

/-- An update that is ready comes to no hazard and does what it does unchecked. -/
theorem checkedUpdate_eq [Ordered α] {p : PathParticle α} {dt : α} (h : p.base.Ready dt) :
    p.checkedUpdate dt = .ok (p.update dt) := by
  rw [checkedUpdate, Particle.checkedUpdate_eq h, update]
  cases hu : p.base.update dt with
  | mk progress? base =>
    cases progress? with
    | none => rfl
    | some progress =>
      cases hp : p.path with
      | none => rfl
      | some path =>
        -- the curve is read once more, at the same progress
        obtain ⟨hprogress, hcurve⟩ := h.of_update hu
        have hspeed := Particle.checkedSpeedAt_eq (p := base) (hcurve ▸ h.inOrder) hprogress
        show (base.checkedSpeedAt progress >>= fun speed => _) = _
        rw [hspeed]
        rfl

end PathParticle

end SparkTrail
