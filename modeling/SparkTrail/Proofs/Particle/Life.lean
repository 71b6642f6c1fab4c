import SparkTrail.Proofs.Particle.Update

/-!
# The life of a particle

A life begins with an activation, which leaves nothing of the animation that was played before, and
ends with the first update that gives no progress. No update wakes a particle up.
-/
namespace SparkTrail

variable {α : Type} [Scalar α]

/-- Nothing is left of the animation that was played before. -/
theorem Animation.restart_play (a b : Animation α) (art : Art α) (maxLife : α) :
    (a.play art).restart maxLife = (b.play art).restart maxLife := by
  have hm : (a.play art).matchesLife = (b.play art).matchesLife := rfl
  rw [restart, restart, hm]
  by_cases hl : (b.play art).matchesLife = true
  · rw [if_pos hl, if_pos hl]
    by_cases hp : 0 < maxLife
    · rw [if_pos hp, if_pos hp]
      rfl
    · rw [if_neg hp, if_neg hp]
      rfl
  · rw [if_neg hl, if_neg hl]
    rfl

theorem Particle.phase_of_update {b b' : Particle α} {dt progress : α}
    (h : b.update dt = (some progress, b')) : b'.phase = b.phase := by
  by_cases hx : b.Expires dt
  · rw [update_of_expires hx] at h
    cases h
  · rw [update_of_not_expires hx] at h
    obtain ⟨-, rfl⟩ := Prod.mk.inj h
    rfl

namespace PathParticle

variable {p q : PathParticle α} {dt progress : α}

theorem isActive_destroy : p.destroy.isActive = false := rfl

/-- The particle `dt` seconds later, if it still lives then. -/
def next? (p : PathParticle α) (dt : α) : Option (PathParticle α) :=
  match p.update dt with
  | (some _, q) => some q
  | (none, _) => none

/-- An update leaves a living particle just where the particle does not expire by it. -/
theorem next?_eq_some_iff :
    p.next? dt = some q ↔ ¬ p.base.Expires dt ∧ (p.update dt).2 = q := by
  rw [next?]
  by_cases hx : p.base.Expires dt
  · simp [update_of_expires hx, hx]
  · have hfst : (p.update dt).1 = some ((p.base.age + dt) / p.base.maxLife) := by
      rw [update_fst, Particle.update_of_not_expires hx]
    rw [← Prod.eta (p.update dt), hfst]
    simp [hx]

/-- A life that goes on goes on: updating does not wake a particle up. -/
theorem isActive_of_update (h : p.update dt = (some progress, q)) :
    q.isActive = p.isActive := by
  have hfst : (p.base.update dt).1 = some progress := by rw [← update_fst, h]
  have hbase := Particle.phase_of_update (Prod.ext hfst rfl)
  have hphase := phase_update p dt
  rw [h] at hphase
  rw [isActive, isActive, Particle.isActive, Particle.isActive, hphase, hbase]

end PathParticle

end SparkTrail
