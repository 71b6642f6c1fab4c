import SparkTrail.Proofs.Particle.Update

/-!
# Runs of updates

What a particle is after any number of updates, and what these report on the way, for a particle by
itself and for one with a path. A path has no say in how long a life is.
-/
namespace SparkTrail

namespace Particle

variable {α : Type} {p q r : Particle α}

/-- Equal in all that decides how long a life is. -/
structure Coeval (p q : Particle α) : Prop where
  age_eq : p.age = q.age
  maxLife_eq : p.maxLife = q.maxLife
  phase_eq : p.phase = q.phase

theorem Coeval.refl (p : Particle α) : Coeval p p :=
  ⟨rfl, rfl, rfl⟩

theorem Coeval.symm (h : Coeval p q) : Coeval q p :=
  ⟨h.age_eq.symm, h.maxLife_eq.symm, h.phase_eq.symm⟩

theorem Coeval.trans (h : Coeval p q) (h' : Coeval q r) : Coeval p r :=
  ⟨h.age_eq.trans h'.age_eq, h.maxLife_eq.trans h'.maxLife_eq, h.phase_eq.trans h'.phase_eq⟩

end Particle

variable {α : Type} [Scalar α]

namespace Particle

variable {p q : Particle α}

def afterAll (p : Particle α) (dts : List α) : Particle α :=
  dts.foldl (fun p dt => (p.update dt).2) p

def reports (p : Particle α) : List α → List (Option α)
  | [] => []
  | dt :: dts => (p.update dt).1 :: reports (p.update dt).2 dts

theorem age_update (p : Particle α) (dt : α) : (p.update dt).2.age = p.age + dt := by
  by_cases hx : p.Expires dt
  · rw [update_of_expires hx]
  · rw [update_of_not_expires hx]

theorem maxLife_update (p : Particle α) (dt : α) : (p.update dt).2.maxLife = p.maxLife := by
  by_cases hx : p.Expires dt
  · rw [update_of_expires hx]
  · rw [update_of_not_expires hx]

theorem reports_cons {p : Particle α} {dt : α} (h : ¬ p.Expires dt) (dts : List α) :
    p.reports (dt :: dts) = some ((p.age + dt) / p.maxLife) :: (p.update dt).2.reports dts := by
  rw [reports, update_of_not_expires h]

theorem Coeval.expires_iff (h : Coeval p q) (dt : α) : p.Expires dt ↔ q.Expires dt := by
  rw [Expires, Expires, h.age_eq, h.maxLife_eq]

/-- How long a life is depends on nothing else, so particles of one age stay together and report the
same. -/
theorem Coeval.update (h : Coeval p q) (dt : α) :
    (p.update dt).1 = (q.update dt).1 ∧ Coeval (p.update dt).2 (q.update dt).2 := by
  have hage : p.age + dt = q.age + dt := by rw [h.age_eq]
  by_cases hx : p.Expires dt
  · rw [update_of_expires hx, update_of_expires ((h.expires_iff dt).mp hx)]
    exact ⟨rfl, hage, h.maxLife_eq, rfl⟩
  · rw [update_of_not_expires hx, update_of_not_expires (mt (h.expires_iff dt).mpr hx), hage,
      h.maxLife_eq]
    exact ⟨rfl, rfl, rfl, h.phase_eq⟩

end Particle

namespace PathParticle

def afterAll (p : PathParticle α) (dts : List α) : PathParticle α :=
  dts.foldl (fun p dt => (p.update dt).2) p

variable {p : PathParticle α} {q : Particle α}

/-- A path changes the position and nothing else of what an update makes of a particle. -/
theorem base_update (p : PathParticle α) (dt : α) :
    ∃ position, (p.update dt).2.base = { (p.base.update dt).2 with position } := by
  rw [update]
  cases hu : p.base.update dt with
  | mk progress? base =>
    cases progress? with
    | none => exact ⟨base.position, rfl⟩
    | some progress =>
      cases p.path with
      | none => exact ⟨base.position, rfl⟩
      | some path => exact ⟨_, rfl⟩

theorem coeval_update (h : Particle.Coeval p.base q) (dt : α) :
    (p.update dt).1 = (q.update dt).1 ∧ Particle.Coeval (p.update dt).2.base (q.update dt).2 := by
  obtain ⟨hreport, hnext⟩ := h.update dt
  obtain ⟨position, hbase⟩ := p.base_update dt
  rw [update_fst, hbase]
  exact ⟨hreport, hnext.age_eq, hnext.maxLife_eq, hnext.phase_eq⟩

/-- How a particle ages does not depend on the path that it may have. -/
theorem coeval_afterAll (h : Particle.Coeval p.base q) (dts : List α) :
    Particle.Coeval (p.afterAll dts).base (q.afterAll dts) := by
  induction dts generalizing p q with
  | nil => exact h
  | cons dt dts ih => exact ih (coeval_update h dt).2

end PathParticle

end SparkTrail
