import SparkTrail.Proofs.Scalar.Exact
import SparkTrail.Animation
import SparkTrail.Scalar.Single

/-!
# When an animation shows a frame

An animation with a framerate of its own stays within its clip, the end included, whatever the times
it is advanced by. It shows one of its frames all the time but for the very end: within the margin
that the frame number is rounded up by, the number is that of no frame, and nothing is shown. The
clip is not left before its end is passed, so an animation that reaches the end exactly shows
nothing there, whether it loops or not.
-/
namespace SparkTrail

/-- Prepared art is frames with the timing that some description gives them. -/
theorem Art.mem_prepareAll {α : Type} [Scalar α] {library : TextureLibrary}
    {descriptions : List (ArtDescription α)} {art : Art α}
    (h : art ∈ (prepareAll library descriptions).1) :
    ∃ textures framerate loops, art = ofFrames textures framerate loops := by
  induction descriptions generalizing library with
  | nil => cases h
  | cons description descriptions ih =>
    rcases List.mem_cons.mp h with rfl | hmore
    · exact ⟨_, _, _, rfl⟩
    · exact ih hmore

namespace Animation

section Play

variable {α : Type} [Scalar α] {art : Art α} {a : Animation α}

def advanceAll (a : Animation α) (dts : List α) : Animation α :=
  dts.foldl advance a

/-- The animation shows the texture of a frame of its own. -/
def ShowsFrame (a : Animation α) : Prop :=
  ∃ i, a.frameIndex? = some i ∧ a.textures[i]? = some a.texture

/-- What an animation has from the art that it plays. -/
structure Plays (art : Art α) (a : Animation α) : Prop where
  textures_eq : a.textures = art.textures
  framerate_eq : a.framerate = art.framerate
  duration_eq : a.duration = art.duration
  loops_eq : a.loops = art.loops

theorem plays_restart (a : Animation α) (maxLife : α) (h : ¬ art.framerate < 0) :
    Plays art ((a.play art).restart maxLife) := by
  have hm : (a.play art).matchesLife = false := decide_eq_false h
  rw [restart, hm]
  exact ⟨rfl, rfl, rfl, rfl⟩

theorem Plays.advance (h : Plays art a) (dt : α) : Plays art (a.advance dt) :=
  { h with }

theorem Plays.advanceAll (h : Plays art a) (dts : List α) : Plays art (a.advanceAll dts) := by
  induction dts generalizing a with
  | nil => exact h
  | cons dt dts ih => exact ih (h.advance dt)

theorem elapsed_advance {dt : α} (h : ¬ a.duration < a.elapsed + dt) :
    (a.advance dt).elapsed = a.elapsed + dt :=
  if_neg h

theorem texture_advance (a : Animation α) (dt : α) :
    (a.advance dt).texture = (a.advance dt).currentTexture := rfl

theorem currentTexture_eq {i : Nat} (h : a.frameIndex? = some i) :
    a.currentTexture = a.textures[i]?.getD .empty := by
  rw [currentTexture, h]
  rfl

/-- The texture of a frame is one of the animation's own just where the frame's number is in
range. -/
theorem showsFrame_iff_lt {i : Nat} (hi : a.frameIndex? = some i)
    (ht : a.texture = a.currentTexture) : a.ShowsFrame ↔ i < a.frameCount := by
  rw [currentTexture_eq hi] at ht
  constructor
  · rintro ⟨j, hj, htexture⟩
    rw [hi] at hj
    cases hj
    exact (List.getElem?_eq_some_iff.mp htexture).1
  · intro hlt
    refine ⟨i, hi, ?_⟩
    rw [ht, List.getElem?_eq_getElem hlt, Option.getD_some]

theorem texture_eq_empty {i : Nat} (hi : a.frameIndex? = some i)
    (ht : a.texture = a.currentTexture) (hend : a.frameCount ≤ i) : a.texture = .empty := by
  rw [ht, currentTexture_eq hi, List.getElem?_eq_none hend, Option.getD_none]

end Play

section Exact

variable {a : Animation ℝ} {art : Art ℝ} {dt : ℝ}

structure InClip (a : Animation ℝ) : Prop where
  nonneg : 0 ≤ a.elapsed
  le_duration : a.elapsed ≤ a.duration

/-- A time that is not negative does not lead out of the clip: what goes past the end is wrapped or
held back. -/
theorem InClip.advance (h : InClip a) (hdt : 0 ≤ dt) : InClip (a.advance dt) := by
  have hsum : 0 ≤ a.elapsed + dt := by linarith [h.nonneg]
  have hduration : 0 ≤ a.duration := h.nonneg.trans h.le_duration
  suffices hafter : 0 ≤ a.elapsedAfter dt ∧ a.elapsedAfter dt ≤ a.duration from
    ⟨hafter.1, hafter.2⟩
  rw [elapsedAfter]
  by_cases hpast : a.duration < a.elapsed + dt
  · rw [if_pos hpast]
    by_cases hloop : (a.loops && decide (0 < a.duration)) = true
    · rw [if_pos hloop]
      have hpos : 0 < a.duration := by simpa using (Bool.and_eq_true_iff.mp hloop).2
      exact ⟨Exact.rem_nonneg hsum hpos, (Exact.rem_lt hsum hpos).le⟩
    · rw [if_neg hloop, Exact.atLeastZero_eq]
      have hmargin : (0 : ℝ) ≤ endMargin := by
        rw [endMargin, Exact.decimal_eq]
        positivity
      exact ⟨le_max_right _ _, max_le (by linarith) hduration⟩
  · rw [if_neg hpast]
    exact ⟨hsum, not_lt.mp hpast⟩

theorem InClip.advanceAll (h : InClip a) {dts : List ℝ} (hdts : ∀ dt ∈ dts, 0 ≤ dt) :
    InClip (a.advanceAll dts) := by
  induction dts generalizing a with
  | nil => exact h
  | cons dt dts ih =>
    exact ih (h.advance (hdts dt List.mem_cons_self)) fun d hd => hdts d (List.mem_cons_of_mem _ hd)

theorem frame_nonneg (h : InClip a) (hrate : 0 < a.framerate) :
    0 ≤ a.elapsed * a.framerate + 1 / 10 ^ 7 := by
  have helapsed := h.nonneg
  positivity

theorem frameIndex?_of_nonneg (h : 0 ≤ a.elapsed * a.framerate + 1 / 10 ^ 7) :
    a.frameIndex? = some ⌊a.elapsed * a.framerate + 1 / 10 ^ 7⌋₊ := by
  have hmargin : (frameMargin : ℝ) = 1 / 10 ^ 7 := by
    rw [frameMargin, Exact.decimal_eq, Nat.cast_one]
  rw [frameIndex?, hmargin, Exact.isFinite_eq, Exact.whole_eq, if_neg]
  simpa using h

theorem frameIndex?_eq (h : InClip a) (hrate : 0 < a.framerate) :
    a.frameIndex? = some ⌊a.elapsed * a.framerate + 1 / 10 ^ 7⌋₊ :=
  frameIndex?_of_nonneg (frame_nonneg h hrate)

/-- The frame number is that of a frame until the margin before the end of the clip. -/
theorem frame_lt_iff (h : InClip a) (hrate : 0 < a.framerate)
    (hduration : a.duration = a.frameCount / a.framerate) :
    ⌊a.elapsed * a.framerate + 1 / 10 ^ 7⌋₊ < a.frameCount
      ↔ a.elapsed < a.duration - 1 / 10 ^ 7 / a.framerate := by
  rw [Nat.floor_lt (frame_nonneg h hrate), hduration, ← sub_div, lt_div_iff₀ hrate,
    lt_sub_iff_add_lt]

theorem inClip_restart (a : Animation ℝ) (maxLife : ℝ) (h : ¬ art.framerate < 0)
    (hduration : 0 ≤ art.duration) : InClip ((a.play art).restart maxLife) := by
  refine ⟨le_refl 0, ?_⟩
  rw [(plays_restart a maxLife h).duration_eq]
  exact hduration

/-- Unless its frames last a whole life, prepared art lasts as long as its frames one after the
other. -/
theorem duration_of_mem_prepareAll {library : TextureLibrary}
    {descriptions : List (ArtDescription ℝ)} (h : art ∈ (Art.prepareAll library descriptions).1)
    (hrate : 0 < art.framerate) : art.duration = art.frameCount / art.framerate := by
  obtain ⟨textures, framerate, loops, rfl⟩ := Art.mem_prepareAll h
  cases framerate with
  | matchLife =>
    have hneg : ¬ (0 : ℝ) < -1 := by norm_num
    exact absurd hrate hneg
  | fixed perSecond =>
    simp only [Art.ofFrames, Art.frameCount, Exact.ofNat_eq]

/-- After any times at all, before rounding: the elapsed time is within the clip, and a frame of the
art is shown exactly until the margin before the end; from there on nothing is shown. -/
theorem shows_frame_iff (library : TextureLibrary) (descriptions : List (ArtDescription ℝ))
    (art : Art ℝ) (hart : art ∈ (Art.prepareAll library descriptions).1)
    (hrate : 0 < art.framerate) (a : Animation ℝ) (maxLife : ℝ) (dts : List ℝ)
    (hdts : ∀ dt ∈ dts, 0 ≤ dt) (dt : ℝ) (hdt : 0 ≤ dt) :
    let b := (((a.play art).restart maxLife).advanceAll dts).advance dt
    (0 ≤ b.elapsed ∧ b.elapsed ≤ art.duration) ∧
    b.frameIndex? = some ⌊b.elapsed * art.framerate + 1 / 10 ^ 7⌋₊ ∧
    (b.ShowsFrame ↔ b.elapsed < art.duration - 1 / 10 ^ 7 / art.framerate) ∧
    (¬ b.ShowsFrame → b.texture = .empty) := by
  intro b
  have hduration := duration_of_mem_prepareAll hart hrate
  have hplays : Plays art b :=
    ((plays_restart a maxLife hrate.not_gt).advanceAll dts).advance dt
  have hclip : InClip b := by
    refine ((inClip_restart a maxLife hrate.not_gt ?_).advanceAll hdts).advance hdt
    rw [hduration]
    positivity
  have hbrate : 0 < b.framerate := hplays.framerate_eq ▸ hrate
  have hindex := frameIndex?_eq hclip hbrate
  have hbduration : b.duration = b.frameCount / b.framerate := by
    rw [hplays.duration_eq, hduration, hplays.framerate_eq, frameCount, hplays.textures_eq,
      Art.frameCount]
  have hlt := frame_lt_iff hclip hbrate hbduration
  have hshows := showsFrame_iff_lt hindex (texture_advance _ dt)
  rw [← hplays.duration_eq, ← hplays.framerate_eq]
  refine ⟨⟨hclip.nonneg, hclip.le_duration⟩, hindex, hshows.trans hlt, ?_⟩
  intro hnone
  exact texture_eq_empty hindex (texture_advance _ dt) (not_lt.mp (hshows.not.mp hnone))

/-- Two frames of half a second each, played for half a second: a quarter of a second later the
second one is shown, and half a second later none. -/
theorem shows_frame_iff_halves :
    let description : ArtDescription ℝ :=
      ⟨.fixed 2, false, [.once (.named "a"), .once (.named "b")]⟩
    let art : Art ℝ := ⟨[⟨1, "a"⟩, ⟨2, "b"⟩], 2, 1, false⟩
    let half := ((empty.play art).restart 1).advanceAll [1 / 2]
    art ∈ (Art.prepareAll .empty [description]).1 ∧ 0 < art.framerate ∧
      (half.advance (1 / 4)).ShowsFrame ∧ ¬ (half.advance (1 / 2)).ShowsFrame := by
  intro description art half
  have hrate : 0 < art.framerate := two_pos
  have hart : art ∈ (Art.prepareAll .empty [description]).1 := by
    have hprepared : (Art.prepareAll .empty [description]).1 =
        [⟨art.textures, if (0 : ℝ) < 2 then 2 else Art.defaultFramerate,
          Scalar.ofNat 2 / if (0 : ℝ) < 2 then 2 else Art.defaultFramerate, false⟩] := rfl
    rw [hprepared, if_pos two_pos, Exact.ofNat_eq]
    simp [art]
  have hstart : Plays art ((empty.play art).restart 1) := plays_restart empty 1 hrate.not_gt
  have hplays : Plays art half := hstart.advanceAll [1 / 2]
  have hhalf : half.elapsed = 1 / 2 := by
    have hwithin : ¬ ((empty.play art).restart 1).duration < 0 + 1 / 2 := by
      rw [hstart.duration_eq]
      show ¬ (1 : ℝ) < 0 + 1 / 2
      norm_num
    exact (elapsed_advance hwithin).trans (zero_add _)
  have hshows (dt : ℝ) (hdt : 0 ≤ dt) (hend : dt ≤ 1 / 2) :
      (half.advance dt).ShowsFrame ↔ 1 / 2 + dt < 1 - 1 / 10 ^ 7 / 2 := by
    obtain ⟨-, -, hiff, -⟩ := shows_frame_iff .empty [description] art hart hrate empty 1 [1 / 2]
      (by norm_num) dt hdt
    have hwithin : ¬ half.duration < half.elapsed + dt := by
      rw [hplays.duration_eq, hhalf]
      show ¬ (1 : ℝ) < 1 / 2 + dt
      linarith
    rw [← hhalf, ← elapsed_advance hwithin]
    exact hiff
  refine ⟨hart, hrate, ?_, ?_⟩
  · rw [hshows _ (by norm_num) (by norm_num)]
    norm_num
  · rw [hshows _ (by norm_num) (by norm_num)]
    norm_num

end Exact

/-- Four frames a second, played for just the second that they last: the frame number is four, there
is no such frame, and nothing is shown, whether the animation loops or not. -/
theorem nothing_shown_at_end :
    let description (loops : Bool) : ArtDescription Float32 :=
      ⟨.fixed 4, loops, ["a", "b", "c", "d"].map fun name => .once (.named name)⟩
    let art (loops : Bool) := (Art.prepare .empty (description loops)).1
    let atEnd (loops : Bool) := ((empty.play (art loops)).restart 1).advance 1
    0 < (art false).framerate ∧ (art false).frameCount = 4 ∧
      (atEnd false).frameIndex? = some 4 ∧ (atEnd false).texture = .empty ∧
      (atEnd true).frameIndex? = some 4 ∧ (atEnd true).texture = .empty := by
  decide

end Animation

end SparkTrail
