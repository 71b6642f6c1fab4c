import SparkTrail.Proofs.Scalar.Exact
import SparkTrail.Proofs.Particle.Run

/-!
# The length of a life

Before rounding, a particle's age is the sum of the times it was updated by, so as long as none of
them is negative the sum alone tells whether the particle lives. A life that is not longer than zero
ends with the first update.
-/
namespace SparkTrail

namespace Particle

variable {p q : Particle ℝ} {life age dt : ℝ} {dts : List ℝ}

/-- At an age in a life of a given length: where the age is below it, the particle lives. -/
structure Aged (life age : ℝ) (q : Particle ℝ) : Prop where
  maxLife_eq : q.maxLife = life
  age_eq : q.age = age
  nonneg : 0 ≤ age
  active : age < life → q.phase = .active

structure Over (q : Particle ℝ) : Prop where
  maxLife_le : q.maxLife ≤ q.age
  destroyed : q.phase = .destroyed

theorem aged_activate (p : Particle ℝ) (art : Option (Art ℝ)) :
    Aged p.maxLife 0 (p.activate art) :=
  ⟨rfl, rfl, le_rfl, fun _ => rfl⟩

section Step

variable (h : Aged life age q) (hdt : 0 ≤ dt)

include h hdt

theorem Aged.expires_iff : q.Expires dt ↔ life ≤ age + dt := by
  rw [Expires, h.maxLife_eq, h.age_eq, or_iff_left]
  exact not_lt.mpr (add_nonneg h.nonneg hdt)

theorem Aged.update_of_le (hend : life ≤ age + dt) :
    q.update dt = (none, { q with age := age + dt, phase := .destroyed }) := by
  rw [update_of_expires ((h.expires_iff hdt).mpr hend), h.age_eq]

theorem Aged.update_of_lt (hlives : age + dt < life) :
    (q.update dt).1 = some ((age + dt) / life) ∧ (q.update dt).2.phase = .active := by
  have hx : ¬ q.Expires dt := (h.expires_iff hdt).not.mpr hlives.not_ge
  have hage : age < life := by linarith
  rw [update_of_not_expires hx, h.age_eq, h.maxLife_eq]
  exact ⟨rfl, h.active hage⟩

theorem Aged.update : Aged life (age + dt) (q.update dt).2 := by
  refine ⟨?_, ?_, add_nonneg h.nonneg hdt, fun hlives => (h.update_of_lt hdt hlives).2⟩
  · rw [maxLife_update, h.maxLife_eq]
  · rw [age_update, h.age_eq]

theorem Aged.over_update (hend : life ≤ age + dt) : Over (q.update dt).2 := by
  rw [h.update_of_le hdt hend]
  exact ⟨h.maxLife_eq.trans_le hend, rfl⟩

/-- There is progress only in a life that has a length, and then it is a part of that. -/
theorem Aged.progress_mem (hlives : age + dt < life) :
    0 < life ∧ 0 ≤ (age + dt) / life ∧ (age + dt) / life < 1 := by
  have hage : 0 ≤ age + dt := add_nonneg h.nonneg hdt
  have hlife : 0 < life := hage.trans_lt hlives
  exact ⟨hlife, div_nonneg hage hlife.le, (div_lt_one hlife).mpr hlives⟩

/-- The end is reported as soon as the age reaches the life. -/
theorem Aged.report_eq_iff : report (q.update dt).1 = -1 ↔ life ≤ age + dt := by
  rcases le_or_gt life (age + dt) with hend | hlives
  · rw [h.update_of_le hdt hend]
    exact iff_of_true rfl hend
  · obtain ⟨-, hprogress, -⟩ := h.progress_mem hdt hlives
    have hnot : (age + dt) / life ≠ -1 := by linarith
    rw [(h.update_of_lt hdt hlives).1]
    exact iff_of_false hnot hlives.not_ge

/-- A path makes no difference, and the end of a life on it changes no more than elsewhere. -/
theorem Aged.update_path {s : PathParticle ℝ} (hs : Coeval s.base q) :
    (s.update dt).1 = (q.update dt).1 ∧ (s.update dt).2.base.phase = (q.update dt).2.phase ∧
      (life ≤ age + dt →
        s.update dt = (none, { s with base := { s.base with
          age := age + dt
          phase := .destroyed } })) := by
  obtain ⟨hreport, hnext⟩ := PathParticle.coeval_update hs dt
  refine ⟨hreport, hnext.phase_eq, fun hend => ?_⟩
  have hx : s.base.Expires dt := (hs.expires_iff dt).mpr ((h.expires_iff hdt).mpr hend)
  rw [PathParticle.update_of_expires hx, hs.age_eq, h.age_eq]

end Step

/-- Times that are not negative add up to the age. -/
theorem Aged.afterAll (h : Aged life age q) (hdts : ∀ dt ∈ dts, 0 ≤ dt) :
    Aged life (age + dts.sum) (q.afterAll dts) := by
  induction dts generalizing q age with
  | nil =>
    rw [List.sum_nil, add_zero]
    exact h
  | cons dt dts ih =>
    obtain ⟨hdt, hdts⟩ := List.forall_mem_cons.mp hdts
    rw [List.sum_cons, ← add_assoc]
    exact ih (h.update hdt) hdts

theorem Over.update (h : Over q) (hdt : 0 ≤ dt) :
    (q.update dt).1 = none ∧ Over (q.update dt).2 := by
  have hage : q.age ≤ q.age + dt := le_add_of_nonneg_right hdt
  have hx : q.Expires dt := .inl (h.maxLife_le.trans hage)
  rw [update_of_expires hx]
  exact ⟨rfl, h.maxLife_le.trans hage, rfl⟩

theorem Over.afterAll (h : Over q) (hdts : ∀ dt ∈ dts, 0 ≤ dt) : Over (q.afterAll dts) := by
  induction dts generalizing q with
  | nil => exact h
  | cons dt dts ih =>
    obtain ⟨hdt, hdts⟩ := List.forall_mem_cons.mp hdts
    exact ih (h.update hdt).2 hdts

/-- By times of which none is negative, and before rounding: an update reports the end of life if
and only if all times together, its own included, are at least as long as the life, however short
that is. Otherwise it reports the part of the life that they are, and the particle lives. From the
first such end on the particle is destroyed and every update reports the end. The update that ends a
life changes the age and the phase only. With a path all of this is the same. -/
theorem life_ends_at_maxLife (p : Particle ℝ) (art : Option (Art ℝ)) {earlier : List ℝ} {dt : ℝ}
    (hearlier : ∀ d ∈ earlier, 0 ≤ d) (hdt : 0 ≤ dt) :
    let q := (p.activate art).afterAll earlier
    let age := earlier.sum + dt
    (p.activate art).phase = .active ∧
    (report (q.update dt).1 = -1 ↔ p.maxLife ≤ age) ∧
    (age < p.maxLife → (q.update dt).1 = some (age / p.maxLife) ∧ 0 < p.maxLife ∧
      0 ≤ age / p.maxLife ∧ age / p.maxLife < 1 ∧ (q.update dt).2.phase = .active) ∧
    (p.maxLife ≤ age → q.update dt = (none, { q with age, phase := .destroyed }) ∧
      ∀ later, (∀ d ∈ later, 0 ≤ d) →
        let r := (q.update dt).2.afterAll later
        r.phase = .destroyed ∧ ∀ d, 0 ≤ d → (r.update d).1 = none) ∧
    ∀ (r : PathParticle ℝ) (path : Option Path), r.base = p →
      let s := (r.activate art path).afterAll earlier
      (s.update dt).1 = (q.update dt).1 ∧ (s.update dt).2.base.phase = (q.update dt).2.phase ∧
      (p.maxLife ≤ age →
        s.update dt = (none, { s with base := { s.base with age, phase := .destroyed } })) := by
  intro q age
  have hq : Aged p.maxLife earlier.sum q := by
    have hrun := (aged_activate p art).afterAll hearlier
    rwa [zero_add] at hrun
  refine ⟨rfl, hq.report_eq_iff hdt, ?_, ?_, ?_⟩
  · intro hlives
    obtain ⟨hreport, hphase⟩ := hq.update_of_lt hdt hlives
    obtain ⟨hlife, hnonneg, hlt⟩ := hq.progress_mem hdt hlives
    exact ⟨hreport, hlife, hnonneg, hlt, hphase⟩
  · intro hend
    refine ⟨hq.update_of_le hdt hend, ?_⟩
    intro later hlater r
    have hr : Over r := (hq.over_update hdt hend).afterAll hlater
    exact ⟨hr.destroyed, fun d hd => (hr.update hd).1⟩
  · rintro r path rfl s
    -- both lives begin with the same age, length and phase
    have hstart : Coeval (r.activate art path).base (r.base.activate art) := ⟨rfl, rfl, rfl⟩
    exact hq.update_path hdt (PathParticle.coeval_afterAll hstart earlier)

/-- Of two seconds to live, the first update leaves one and a half. A second one that takes exactly
these reports the end, and one that takes a second reports three quarters of the life. -/
theorem life_ends_at_maxLife_two_seconds :
    let p : Particle ℝ := { unborn with maxLife := 2 }
    let q := (p.activate none).afterAll [1 / 2]
    (∀ d ∈ ([1 / 2] : List ℝ), 0 ≤ d) ∧ (0 : ℝ) ≤ 3 / 2 ∧ (0 : ℝ) ≤ 1 ∧
      report (q.update (3 / 2)).1 = -1 ∧ (q.update 1).1 = some (3 / 4) := by
  intro p q
  have hearlier : ∀ d ∈ ([1 / 2] : List ℝ), 0 ≤ d := by norm_num
  have hlong : (0 : ℝ) ≤ 3 / 2 := by norm_num
  have hshort : (0 : ℝ) ≤ 1 := by norm_num
  have hlife : p.maxLife = 2 := rfl
  obtain ⟨-, hends, -⟩ := life_ends_at_maxLife p none hearlier hlong
  obtain ⟨-, -, hlives, -⟩ := life_ends_at_maxLife p none hearlier hshort
  rw [hlife] at hends hlives
  refine ⟨hearlier, hlong, hshort, hends.mpr (by norm_num), ?_⟩
  rw [(hlives (by norm_num)).1]
  norm_num

end Particle

end SparkTrail
