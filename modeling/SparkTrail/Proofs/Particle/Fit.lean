import SparkTrail.Pool
import SparkTrail.Proofs.Particle.Checked
import SparkTrail.Proofs.Particle.Life
import SparkTrail.Proofs.Particle.Run
import SparkTrail.Proofs.Scalar.Number

/-!
# Particles fit for any update

A particle whose age is finite can be updated by any time that is a number, an infinite one too. If
it lives on, its new age is not negative and below its lifetime, so it is finite again, the lifetime
is positive, infinite though it may be, and the progress is a number.
-/
namespace SparkTrail

open Scalar

namespace Animation

variable {α : Type} [Scalar α]

/-- The texture that is shown is one of the animation's own, or the empty one. -/
def ShowsOwn (a : Animation α) : Prop :=
  a.texture = .empty ∨ a.texture ∈ a.textures

theorem showsOwn_restart (a : Animation α) (maxLife : α) : (a.restart maxLife).ShowsOwn := by
  have hfirst (frames : List Texture) :
      frames.headD .empty = .empty ∨ frames.headD .empty ∈ frames := by
    cases frames with
    | nil => exact .inl rfl
    | cons texture frames => exact .inr List.mem_cons_self
  exact hfirst _

/-- To go on is to show a frame of the animation's own, or none. -/
theorem showsOwn_advance (a : Animation α) (dt : α) : (a.advance dt).ShowsOwn := by
  have hframe (frames : List Texture) (index? : Option ℕ) :
      (index?.bind (frames[·]?)).getD .empty = .empty ∨
        (index?.bind (frames[·]?)).getD .empty ∈ frames := by
    cases htexture : index?.bind (frames[·]?) with
    | none => exact .inl rfl
    | some texture =>
      obtain ⟨index, -, hindex⟩ := Option.bind_eq_some_iff.mp htexture
      exact .inr (List.mem_of_getElem? hindex)
  exact hframe a.textures _

end Animation

namespace PathParticle

theorem animation_of_next? {α : Type} [Scalar α] {p q : PathParticle α} {dt : α}
    (h : p.next? dt = some q) : q.base.animation = p.base.animation.advance dt := by
  obtain ⟨hx, rfl⟩ := next?_eq_some_iff.mp h
  obtain ⟨position, hbase⟩ := p.base_update dt
  rw [hbase, Particle.update_of_not_expires hx]

variable {p q : PathParticle Float32} {dt : Float32}

/-- Ready for an update by any time that is a number. The age is below the lifetime unless there has
not been an update yet. -/
structure Fit (p : PathParticle Float32) : Prop where
  isFinite : p.base.age.isFinite = true
  nonneg : 0 ≤ p.base.age
  age_lt : p.base.age = 0 ∨ p.base.age < p.base.maxLife
  isNumber : IsNumber p.base.maxLife
  inOrder : ∀ curve, p.base.speedCurve = some curve → curve.InOrder
  showsOwn : p.base.animation.ShowsOwn

/-- A particle that lives on has a finite age below its lifetime. -/
theorem Fit.of_not_expires (h : p.Fit) (hdt : IsNumber dt) (hx : ¬ p.base.Expires dt) :
    (p.base.age + dt).isFinite = true ∧ 0 ≤ p.base.age + dt ∧ p.base.age + dt < p.base.maxLife := by
  have hage : IsNumber (p.base.age + dt) := Single.isNumber_add h.isFinite hdt
  obtain ⟨hlife, hneg⟩ := not_or.mp hx
  have hlt := Ordered.lt_of_not_le h.isNumber hage hlife
  have hzero : IsNumber (0 : Float32) := by decide
  have hnonneg : 0 ≤ p.base.age + dt := by
    by_contra hnot
    exact hneg (Ordered.lt_of_not_le hzero hage hnot)
  exact ⟨Single.isFinite_of_lt hnonneg hlt, hnonneg, hlt⟩

theorem Fit.ready (h : p.Fit) (hdt : IsNumber dt) : p.base.Ready dt := by
  refine ⟨h.inOrder, fun hx => ?_, fun hx => ?_⟩
  · obtain ⟨-, hnonneg, hlt⟩ := h.of_not_expires hdt hx
    exact Ordered.lt_of_le_of_lt hnonneg hlt
  · obtain ⟨hfinite, hnonneg, hlt⟩ := h.of_not_expires hdt hx
    exact Single.isNumber_div hfinite (Ordered.lt_of_le_of_lt hnonneg hlt)

/-- A particle that is fit and lives on is fit again. -/
theorem Fit.next (h : p.Fit) (hdt : IsNumber dt) (hq : p.next? dt = some q) : q.Fit := by
  obtain ⟨hx, rfl⟩ := next?_eq_some_iff.mp hq
  obtain ⟨hfinite, hnonneg, hlt⟩ := h.of_not_expires hdt hx
  obtain ⟨position, hbase⟩ := p.base_update dt
  rw [Particle.update_of_not_expires hx] at hbase
  constructor <;> rw [hbase]
  · exact hfinite
  · exact hnonneg
  · exact .inr hlt
  · exact h.isNumber
  · exact h.inOrder
  · exact Animation.showsOwn_advance p.base.animation dt

/-- A launch makes a particle fit if its lifetime is a number, however short or long, and its curve
is in order. -/
theorem fit_launch {l : Launch Float32} (hlife : IsNumber l.maxLife)
    (hcurve : ∀ curve, l.speedCurve = some curve → curve.InOrder) (art : Option (Art Float32))
    (path : Option Path) : (unborn.launch l art path).Fit := by
  refine ⟨?_, ?_, .inl rfl, hlife, hcurve, Animation.showsOwn_restart _ l.maxLife⟩
  · show (0 : Float32).isFinite = true
    decide
  · show (0 : Float32) ≤ 0
    decide

end PathParticle

end SparkTrail
