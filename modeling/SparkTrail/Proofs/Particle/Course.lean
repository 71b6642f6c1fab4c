import SparkTrail.Proofs.Scalar.Exact
import SparkTrail.Proofs.Particle.Run

/-!
# The course under a speed curve

A particle in free motion under a speed curve never leaves the line it was launched along. Which way
it goes on that line each update takes from the velocity that the one before left: a negative speed
turns the particle around for all that follows, and a speed of zero loses the direction for good.
-/
namespace SparkTrail

namespace Vector2

variable {u v : Vector2 ℝ} {j k s : ℝ}

theorem scale_scale (v : Vector2 ℝ) (j k : ℝ) : (v.scale j).scale k = v.scale (j * k) := by
  simp only [scale, mk.injEq]
  exact ⟨mul_assoc v.x j k, mul_assoc v.y j k⟩

theorem scale_one (v : Vector2 ℝ) : v.scale 1 = v := by
  simp only [scale]
  exact congrArg₂ mk (mul_one v.x) (mul_one v.y)

theorem scale_zero (v : Vector2 ℝ) : v.scale 0 = zero :=
  congrArg₂ mk (mul_zero v.x) (mul_zero v.y)

theorem lengthSquared_eq (v : Vector2 ℝ) : v.lengthSquared = v.x ^ 2 + v.y ^ 2 := by
  rw [sq, sq]
  rfl

theorem lengthSquared_scale (v : Vector2 ℝ) (k : ℝ) :
    (v.scale k).lengthSquared = v.lengthSquared * k ^ 2 := by
  have hx : (v.scale k).x = v.x * k := rfl
  have hy : (v.scale k).y = v.y * k := rfl
  rw [lengthSquared_eq, lengthSquared_eq, hx, hy]
  ring

theorem length_eq (v : Vector2 ℝ) : v.length = √v.lengthSquared := rfl

theorem length_scale (v : Vector2 ℝ) (k : ℝ) : (v.scale k).length = v.length * |k| := by
  rw [length_eq, length_eq, lengthSquared_scale, Real.sqrt_mul' _ (sq_nonneg k),
    Real.sqrt_sq_eq_abs]

theorem length_pos_iff : 0 < v.length ↔ v ≠ zero := by
  rw [length_eq, Real.sqrt_pos, lengthSquared_eq]
  obtain ⟨x, y⟩ := v
  constructor
  · rintro hpos ⟨⟩
    exact lt_irrefl _ (hpos.trans_eq (by norm_num))
  · intro hne
    by_contra hsquares
    have hx : x = 0 := by nlinarith [sq_nonneg x, sq_nonneg y]
    have hy : y = 0 := by nlinarith [sq_nonneg x, sq_nonneg y]
    exact hne (congrArg₂ mk hx hy)

theorem direction_eq (h : v ≠ zero) : v.direction = v.scale (1 / v.length) := by
  have hpos : 0 < 1 / v.length := one_div_pos.mpr (length_pos_iff.mpr h)
  rw [direction, Exact.isFinite_eq, Bool.true_and, if_pos (decide_eq_true hpos)]

theorem direction_zero : direction (zero : Vector2 ℝ) = zero := by
  have hlength : length (zero : Vector2 ℝ) = 0 := by
    rw [← scale_zero zero, length_scale, abs_zero, mul_zero]
  have hinverse : ¬ (0 : ℝ) < 1 / 0 := by norm_num
  rw [direction, hlength, decide_eq_false hinverse, Bool.and_false]
  rfl

theorem length_direction (h : v ≠ zero) : v.direction.length = 1 := by
  have hpos := length_pos_iff.mpr h
  rw [direction_eq h, length_scale, abs_of_pos (one_div_pos.mpr hpos), mul_one_div_cancel hpos.ne']

theorem scale_direction (h : v ≠ zero) : v.direction.scale v.length = v := by
  rw [direction_eq h, scale_scale, one_div_mul_cancel (length_pos_iff.mpr h).ne', scale_one]

theorem scale_eq_zero_iff (hu : u.length = 1) : u.scale s = zero ↔ s = 0 := by
  rw [← not_iff_not, ← ne_eq, ← length_pos_iff, length_scale, hu, one_mul, abs_pos]

/-- A multiple of a unit vector has its direction, the opposite one, or none. -/
theorem direction_scale (hu : u.length = 1) (s : ℝ) :
    (u.scale s).direction = u.scale (SignType.sign s : ℝ) := by
  by_cases hs : s = 0
  · rw [hs, scale_zero, direction_zero, sign_zero, SignType.coe_zero, scale_zero]
  · have hsign : s * (1 / |s|) = (SignType.sign s : ℝ) := by
      rw [mul_one_div, div_eq_iff (abs_ne_zero.mpr hs), sign_mul_abs]
    rw [direction_eq (mt (scale_eq_zero_iff hu).mp hs), length_scale, hu, one_mul, scale_scale,
      hsign]

end Vector2

namespace Particle

variable {p q : Particle ℝ} {curve : Curve ℝ} {u : Vector2 ℝ} {dts earlier : List ℝ}
  {multiplier s dt now : ℝ}

/-- Free motion along a line under a speed curve; `s` is the velocity as a multiple of `u`. -/
structure OnCourse (curve : Curve ℝ) (multiplier : ℝ) (u : Vector2 ℝ) (s : ℝ)
    (q : Particle ℝ) : Prop where
  motion_eq : q.motion = .free
  speedCurve_eq : q.speedCurve = some curve
  speedMultiplier_eq : q.speedMultiplier = multiplier
  velocity_eq : q.velocity = u.scale s

/-- An update gives the particle the speed of the curve, the way that it went before. -/
theorem OnCourse.update (h : OnCourse curve multiplier u s q) (hu : u.length = 1)
    (hlives : (q.update dt).1 = some now) :
    OnCourse curve multiplier u (SignType.sign s * (curve.sample now * multiplier))
      (q.update dt).2 := by
  by_cases hx : q.Expires dt
  · rw [update_of_expires hx] at hlives
    cases hlives
  rw [update_of_not_expires hx] at hlives ⊢
  rw [Option.some.inj hlives]
  refine ⟨h.motion_eq, h.speedCurve_eq, h.speedMultiplier_eq, ?_⟩
  have hspeed : q.speedAt now = curve.sample now * multiplier := by
    rw [speedAt, h.speedCurve_eq, ← h.speedMultiplier_eq]
  rw [carried, if_pos h.motion_eq]
  show q.velocityAfter now dt = _
  rw [velocityAfter, h.speedCurve_eq, Option.isSome_some, if_pos rfl, hspeed, h.velocity_eq,
    Vector2.direction_scale hu, Vector2.scale_scale]

theorem sign_sign_mul (s k : ℝ) :
    SignType.sign ((SignType.sign s : ℝ) * k) = SignType.sign (s * k) := by
  rw [sign_mul, sign_mul]
  rcases SignType.trichotomy (SignType.sign s) with hs | hs | hs
  · rw [hs, SignType.coe_neg_one, Left.sign_neg, sign_one]
  · rw [hs, SignType.coe_zero, sign_zero]
  · rw [hs, SignType.coe_one, sign_one]

/-- A turn stays in force: the way at the end is that of the product of all speeds so far. -/
theorem OnCourse.afterAll (h : OnCourse curve multiplier u s q) (hu : u.length = 1)
    (hlives : q.reports dts = (earlier ++ [now]).map some) :
    OnCourse curve multiplier u
      (SignType.sign (s * (earlier.map fun t => curve.sample t * multiplier).prod) *
        (curve.sample now * multiplier)) (q.afterAll dts) := by
  -- `s` is general: each update leaves the next one its own multiple of `u` to start from.
  induction earlier generalizing q s dts with
  | nil =>
    cases dts with
    | nil => cases hlives
    | cons dt dts =>
      obtain ⟨hnow, hrest⟩ := List.cons.inj hlives
      cases dts with
      | cons d dts => cases hrest
      | nil =>
        rw [List.map_nil, List.prod_nil, mul_one]
        exact h.update hu hnow
  | cons t earlier ih =>
    cases dts with
    | nil => cases hlives
    | cons dt dts =>
      obtain ⟨ht, hrest⟩ := List.cons.inj hlives
      have hend := ih (h.update hu ht) hrest
      rw [mul_assoc, sign_sign_mul] at hend
      rw [List.map_cons, List.prod_cons]
      exact hend

theorem onCourse_activate (art : Option (Art ℝ)) (hcurve : p.speedCurve = some curve)
    (hmoving : p.velocity ≠ .zero) :
    OnCourse curve p.speedMultiplier p.velocity.direction p.velocity.length (p.activate art) :=
  ⟨rfl, hcurve, rfl, (Vector2.scale_direction hmoving).symm⟩

/-- After any updates that a particle lives through, before rounding: the velocity is the direction
of launch times the speed of the curve, turned around once for each earlier speed that was negative.
It is zero where this speed is zero or an earlier one was. -/
theorem velocity_on_course (p : Particle ℝ) (art : Option (Art ℝ)) (curve : Curve ℝ)
    (hcurve : p.speedCurve = some curve) (hmoving : p.velocity ≠ .zero) (dts earlier : List ℝ)
    (now : ℝ) (hlives : (p.activate art).reports dts = (earlier ++ [now]).map some) :
    let speed t := curve.sample t * p.speedMultiplier
    let u := p.velocity.direction
    let v := ((p.activate art).afterAll dts).velocity
    (u.length = 1 ∧ u.scale p.velocity.length = p.velocity) ∧
    v = u.scale (SignType.sign (earlier.map speed).prod * speed now) ∧
    (v = .zero ↔ speed now = 0 ∨ ∃ t ∈ earlier, speed t = 0) ∧
    ((∀ t ∈ earlier, 0 < speed t) → v = u.scale (speed now)) := by
  intro speed u v
  have hu : u.length = 1 := Vector2.length_direction hmoving
  have hv : v = u.scale (SignType.sign (earlier.map speed).prod * speed now) := by
    have hend := ((onCourse_activate art hcurve hmoving).afterAll hu hlives).velocity_eq
    rwa [sign_mul, sign_pos (Vector2.length_pos_iff.mpr hmoving), one_mul] at hend
  refine ⟨⟨hu, Vector2.scale_direction hmoving⟩, hv, ?_, ?_⟩
  · have hcoe (s : SignType) : (s : ℝ) = 0 ↔ s = 0 := by cases s <;> simp
    rw [hv, Vector2.scale_eq_zero_iff hu, mul_eq_zero, hcoe, sign_eq_zero_iff,
      List.prod_eq_zero_iff, List.mem_map, or_comm]
  · intro hpositive
    have hprod : 0 < (earlier.map speed).prod :=
      List.prod_pos fun k hk => by
        obtain ⟨t, ht, rfl⟩ := List.mem_map.mp hk
        exact hpositive t ht
    rw [hv, sign_pos hprod, SignType.coe_one, one_mul]

/-- A particle launched with four seconds to live, under a curve that jumps to the speed two in the
middle of its life. -/
noncomputable def launched (first : ℝ) : Particle ℝ :=
  { unborn with
    velocity := ⟨2, 0⟩
    maxLife := 4
    speedCurve := some ⟨[⟨0, first⟩, ⟨1 / 2, 2⟩], .step⟩ }

theorem reports_launched (first : ℝ) :
    ((launched first).activate none).reports [1, 1] =
      ([1 / 4] ++ [1 / 2] : List ℝ).map some := by
  have hage : ((launched first).activate none).age = 0 := rfl
  have hlife : ((launched first).activate none).maxLife = 4 := rfl
  rw [reports_cons, reports_cons, age_update, maxLife_update, hage, hlife]
  · norm_num [reports]
  · rw [Expires, age_update, maxLife_update, hage, hlife]
    norm_num
  · rw [Expires, hage, hlife]
    norm_num

theorem sample_launched (first : ℝ) :
    Curve.sample ⟨[⟨0, first⟩, ⟨1 / 2, 2⟩], .step⟩ (1 / 4) = first ∧
    Curve.sample ⟨[⟨0, first⟩, ⟨1 / 2, 2⟩], .step⟩ (1 / 2) = (2 : ℝ) := by
  constructor
  · norm_num [Curve.sample, Curve.sample?, Curve.upTo, Curve.after, Curve.between]
  · norm_num [Curve.sample, Curve.sample?]

theorem moving_launched (first : ℝ) : (launched first).velocity ≠ .zero := by
  intro hzero
  exact two_ne_zero (congrArg Vector2.x hzero)

/-- The first speed is minus two: the particle comes back, and goes on so at the speed two. -/
theorem velocity_on_course_turned :
    (launched (-2)).velocity ≠ .zero ∧
    ((launched (-2)).activate none).reports [1, 1] = ([1 / 4] ++ [1 / 2] : List ℝ).map some ∧
    (((launched (-2)).activate none).afterAll [1, 1]).velocity =
      (launched (-2)).velocity.direction.scale (-2) := by
  obtain ⟨-, hv, -, -⟩ :=
    velocity_on_course (launched (-2)) none _ rfl (moving_launched (-2)) [1, 1] [1 / 4] (1 / 2)
      (reports_launched (-2))
  have hmultiplier : (launched (-2)).speedMultiplier = 1 := rfl
  obtain ⟨hfirst, hlater⟩ := sample_launched (-2)
  refine ⟨moving_launched (-2), reports_launched (-2), hv.trans ?_⟩
  beta_reduce
  rw [List.map_singleton, List.prod_singleton, hfirst, hlater, hmultiplier, mul_one, mul_one,
    sign_neg (by norm_num), SignType.coe_neg_one, neg_one_mul]

theorem velocity_launched (first : ℝ) :
    (((launched first).activate none).afterAll [1, 1]).velocity =
      (launched first).velocity.direction.scale ((SignType.sign first : ℝ) * 2) := by
  have hunit := Vector2.length_direction (moving_launched first)
  have hpos := Vector2.length_pos_iff.mpr (moving_launched first)
  have hmultiplier : (launched first).speedMultiplier = 1 := rfl
  obtain ⟨hfirst, hlater⟩ := sample_launched first
  have hend := ((onCourse_activate none rfl (moving_launched first)).afterAll hunit
    (reports_launched first)).velocity_eq
  rwa [List.map_singleton, List.prod_singleton, hfirst, hlater, hmultiplier, mul_one, mul_one,
    sign_mul, sign_pos hpos, one_mul] at hend

theorem direction_launched (first : ℝ) : (launched first).velocity.direction = ⟨1, 0⟩ := by
  have hunit : Vector2.length (⟨1, 0⟩ : Vector2 ℝ) = 1 := by
    rw [Vector2.length_eq, Vector2.lengthSquared_eq]
    norm_num
  have hvelocity : (launched first).velocity = Vector2.scale ⟨1, 0⟩ 2 := by
    show (⟨2, 0⟩ : Vector2 ℝ) = ⟨1 * 2, 0 * 2⟩
    norm_num
  rw [hvelocity, Vector2.direction_scale hunit, sign_pos two_pos, SignType.coe_one,
    Vector2.scale_one]

/-- In the middle of the life the curve gives the speed two. The particle whose first speed was zero
rests all the same, and the one whose first speed was minus two goes backwards. -/
theorem course_not_kept :
    (((launched 0).activate none).reports [1, 1] = [some (1 / 4), some (1 / 2)] ∧
      (launched 0).speedAt (1 / 2) = 2 ∧ (launched 0).velocity.direction = ⟨1, 0⟩ ∧
      (((launched 0).activate none).afterAll [1, 1]).velocity = ⟨0, 0⟩) ∧
    ((launched (-2)).activate none).reports [1, 1] = [some (1 / 4), some (1 / 2)] ∧
      (launched (-2)).speedAt (1 / 2) = 2 ∧ (launched (-2)).velocity.direction = ⟨1, 0⟩ ∧
      (((launched (-2)).activate none).afterAll [1, 1]).velocity = ⟨-2, 0⟩ := by
  have hspeed (first : ℝ) : (launched first).speedAt (1 / 2) = 2 :=
    (mul_one _).trans (sample_launched first).2
  have hscale (k : ℝ) : Vector2.scale (⟨1, 0⟩ : Vector2 ℝ) k = ⟨k, 0⟩ :=
    congrArg₂ Vector2.mk (one_mul k) (zero_mul k)
  have hvelocity (first : ℝ) : (((launched first).activate none).afterAll [1, 1]).velocity =
      ⟨(SignType.sign first : ℝ) * 2, 0⟩ := by
    rw [velocity_launched, direction_launched, hscale]
  refine ⟨⟨reports_launched 0, hspeed 0, direction_launched 0, ?_⟩,
    reports_launched (-2), hspeed (-2), direction_launched (-2), ?_⟩
  · rw [hvelocity, sign_zero, SignType.coe_zero, zero_mul]
  · rw [hvelocity, sign_neg (by norm_num), SignType.coe_neg_one, neg_one_mul]

end Particle

end SparkTrail
