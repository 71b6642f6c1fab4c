import SparkTrail.Proofs.Animation.Frames

/-!
# The phase of a looping animation

Each time it is advanced, a looping animation either just adds the time or, past its end, takes
whole turns off the sum as well. Before rounding its elapsed time is therefore the sum of all times
up to whole turns, whichever of the two happened how often. The end of the clip itself is not taken
off, so the two ends of the clip are one phase at two elapsed times.
-/
namespace SparkTrail

theorem Exact.rem_modEq (a b : ℝ) : Scalar.rem a b ≡ a [PMOD b] := by
  refine AddCommGroup.modEq_iff_zsmul.mpr ⟨truncate (a / b), ?_⟩
  have hrem : Scalar.rem a b = a - b * truncate (a / b) := rfl
  rw [hrem, zsmul_eq_mul, mul_comm b, sub_sub_cancel]

namespace Animation

variable {a : Animation ℝ} {duration s t : ℝ}

/-- To wrap is to take away whole turns. -/
theorem elapsed_advance_modEq (hloops : a.loops = true) (hduration : 0 < a.duration) (dt : ℝ) :
    (a.advance dt).elapsed ≡ a.elapsed + dt [PMOD a.duration] := by
  show a.elapsedAfter dt ≡ a.elapsed + dt [PMOD a.duration]
  rw [elapsedAfter]
  by_cases hpast : a.duration < a.elapsed + dt
  · have hturns : (a.loops && decide (0 < a.duration)) = true :=
      Bool.and_eq_true_iff.mpr ⟨hloops, decide_eq_true hduration⟩
    rw [if_pos hpast, if_pos hturns]
    exact Exact.rem_modEq _ _
  · rw [if_neg hpast]

/-- Whole turns taken off on the way are taken off in the end. -/
theorem elapsed_advanceAll_modEq (hloops : a.loops = true) (hduration : 0 < a.duration)
    (dts : List ℝ) : (a.advanceAll dts).elapsed ≡ a.elapsed + dts.sum [PMOD a.duration] := by
  induction dts generalizing a with
  | nil =>
    rw [List.sum_nil, add_zero]
    exact AddCommGroup.modEq_rfl
  | cons dt dts ih =>
    have hstep := (elapsed_advance_modEq hloops hduration dt).add_right dts.sum
    have hrest : ((a.advance dt).advanceAll dts).elapsed ≡ (a.advance dt).elapsed + dts.sum
        [PMOD a.duration] := ih (a := a.advance dt) hloops hduration
    rw [List.sum_cons, ← add_assoc]
    exact hrest.trans hstep

theorem duration_advanceAll (a : Animation ℝ) (dts : List ℝ) :
    (a.advanceAll dts).duration = a.duration := by
  induction dts generalizing a with
  | nil => rfl
  | cons dt dts ih => exact ih (a.advance dt)

/-- A phase has one place within the clip, but for the two ends of the clip. -/
theorem eq_or_ends_of_modEq (hs : 0 ≤ s ∧ s ≤ duration) (ht : 0 ≤ t ∧ t ≤ duration)
    (h : s ≡ t [PMOD duration]) :
    s = t ∨ (s = 0 ∧ t = duration) ∨ (s = duration ∧ t = 0) := by
  obtain ⟨turns, hturns⟩ := AddCommGroup.modEq_iff_zsmul.mp h
  rw [zsmul_eq_mul] at hturns
  rcases lt_trichotomy turns 0 with hneg | rfl | hpos
  · have hle : (turns : ℝ) ≤ -1 := by exact_mod_cast Int.le_sub_one_of_lt hneg
    have hback : (turns : ℝ) * duration ≤ -duration := by nlinarith
    exact .inr (.inr ⟨by linarith, by linarith⟩)
  · rw [Int.cast_zero, zero_mul] at hturns
    exact .inl (by linarith)
  · have hle : (1 : ℝ) ≤ turns := by exact_mod_cast hpos
    have hon : duration ≤ turns * duration := by nlinarith
    exact .inr (.inl ⟨by linarith, by linarith⟩)

/-- Before rounding, a looping animation stays within its clip and keeps its phase: after any times
of which none is negative, its elapsed time is the one at the start and the sum of the times, up to
whole turns. Times with the same sum, however they are split, lead to the same phase, which is the
same elapsed time unless one is at the start of the clip and the other at its end. -/
theorem looping_keeps_phase (a : Animation ℝ) (hloops : a.loops = true) (hduration : 0 < a.duration)
    (hstart : 0 ≤ a.elapsed ∧ a.elapsed ≤ a.duration) (dts : List ℝ) (hdts : ∀ dt ∈ dts, 0 ≤ dt) :
    let b := a.advanceAll dts
    (0 ≤ b.elapsed ∧ b.elapsed ≤ a.duration) ∧
    b.elapsed ≡ a.elapsed + dts.sum [PMOD a.duration] ∧
    ∀ dts' : List ℝ, (∀ dt ∈ dts', 0 ≤ dt) → dts'.sum = dts.sum →
      let b' := a.advanceAll dts'
      b'.elapsed ≡ b.elapsed [PMOD a.duration] ∧
      (b'.elapsed = b.elapsed ∨ (b'.elapsed = 0 ∧ b.elapsed = a.duration) ∨
        (b'.elapsed = a.duration ∧ b.elapsed = 0)) := by
  intro b
  have hclip (dts : List ℝ) (hdts : ∀ dt ∈ dts, 0 ≤ dt) :
      0 ≤ (a.advanceAll dts).elapsed ∧ (a.advanceAll dts).elapsed ≤ a.duration := by
    have h := InClip.advanceAll ⟨hstart.1, hstart.2⟩ hdts
    exact ⟨h.nonneg, duration_advanceAll a dts ▸ h.le_duration⟩
  have hphase := elapsed_advanceAll_modEq hloops hduration dts
  refine ⟨hclip dts hdts, hphase, fun dts' hdts' hsum => ?_⟩
  have hphase' := elapsed_advanceAll_modEq hloops hduration dts'
  rw [hsum] at hphase'
  have hsame := hphase'.trans hphase.symm
  exact ⟨hsame, eq_or_ends_of_modEq (hclip dts' hdts') (hclip dts hdts) hsame⟩

/-- Frames of a second each, at the end of the second one: three seconds and one more lead to the
end again, the four seconds at once to the start. -/
theorem looping_keeps_phase_at_ends :
    let a : Animation ℝ := ⟨[⟨1, "a"⟩, ⟨2, "b"⟩], 1, 2, 2, true, .empty⟩
    (a.loops = true ∧ 0 < a.duration ∧ 0 ≤ a.elapsed ∧ a.elapsed ≤ a.duration) ∧
      (∀ dt ∈ ([3, 1] : List ℝ), 0 ≤ dt) ∧ (∀ dt ∈ ([4] : List ℝ), 0 ≤ dt) ∧
      ([4] : List ℝ).sum = ([3, 1] : List ℝ).sum ∧
      (a.advanceAll [3, 1]).elapsed = 2 ∧ (a.advanceAll [4]).elapsed = 0 ∧
      (a.advanceAll [3, 1]).elapsed ≡ 6 [PMOD 2] ∧
      (a.advanceAll [4]).elapsed ≡ (a.advanceAll [3, 1]).elapsed [PMOD 2] := by
  intro a
  have hduration : 0 < a.duration := two_pos
  have hstart : 0 ≤ a.elapsed ∧ a.elapsed ≤ a.duration := ⟨two_pos.le, le_rfl⟩
  have hsplit : ∀ dt ∈ ([3, 1] : List ℝ), 0 ≤ dt := by norm_num
  have hwhole : ∀ dt ∈ ([4] : List ℝ), 0 ≤ dt := by norm_num
  have hsum : ([4] : List ℝ).sum = ([3, 1] : List ℝ).sum := by norm_num
  obtain ⟨-, hphase, hsame⟩ := looping_keeps_phase a rfl hduration hstart [3, 1] hsplit
  have helapsed (dt : ℝ) (h : 0 < dt) : (a.advance dt).elapsed = 2 + dt - 2 * ⌊(2 + dt) / 2⌋ := by
    have hpast : a.duration < a.elapsed + dt := lt_add_of_pos_right 2 h
    have hturns : (a.loops && decide (0 < a.duration)) = true := decide_eq_true hduration
    have hsum : (0 : ℝ) ≤ 2 + dt := by linarith
    show a.elapsedAfter dt = _
    rw [elapsedAfter, if_pos hpast, if_pos hturns]
    exact Exact.rem_eq hsum two_pos
  have hone : (a.advance 3).elapsed = 1 := by
    have hfloor : ⌊(2 + 3 : ℝ) / 2⌋ = 2 := by norm_num [Int.floor_eq_iff]
    rw [helapsed 3 three_pos, hfloor]
    norm_num
  refine ⟨⟨rfl, hduration, hstart⟩, hsplit, hwhole, hsum, ?_, ?_, ?_, ?_⟩
  · have hwithin : ¬ (a.advance 3).duration < (a.advance 3).elapsed + 1 := by
      rw [hone]
      show ¬ (2 : ℝ) < 1 + 1
      norm_num
    show ((a.advance 3).advance 1).elapsed = 2
    rw [elapsed_advance hwithin, hone]
    norm_num
  · have hfloor : ⌊(2 + 4 : ℝ) / 2⌋ = 3 := by norm_num [Int.floor_eq_iff]
    show (a.advance 4).elapsed = 0
    rw [helapsed 4 four_pos, hfloor]
    norm_num
  · have hsix : (2 : ℝ) + [3, 1].sum = 6 := by norm_num
    exact hsix ▸ hphase
  · exact (hsame [4] hwhole hsum).1

end Animation

end SparkTrail
