import SparkTrail.Proofs.Animation.Frames

/-!
# Where an animation comes to rest

Past its end, an animation that does not loop is put back to a margin before the end, whatever the
times it was advanced by. The margin is a time, while a frame number is rounded up by a margin in
frames. The two fit together for the framerates in between only: slower frames are rounded up over
the end, and frames shorter than the margin leave the animation before its last one.
-/
namespace SparkTrail

namespace Animation

section Play

variable {α : Type} [Scalar α] {art : Art α} {a : Animation α} {dt : α}

/-- Nothing is left of how the end was passed. -/
theorem elapsed_of_past (hloops : a.loops = false) (hpast : a.duration < a.elapsed + dt) :
    (a.advance dt).elapsed = Scalar.atLeastZero (a.duration - endMargin) := by
  show a.elapsedAfter dt = _
  rw [elapsedAfter, if_pos hpast, hloops, Bool.false_and]
  rfl

theorem Plays.texture_eq {i : Nat} (h : Plays art a) (hi : a.frameIndex? = some i)
    (ht : a.texture = a.currentTexture) (hlt : i < art.frameCount) :
    art.textures[i]? = some a.texture := by
  rw [Art.frameCount, ← h.textures_eq] at hlt
  obtain ⟨j, hj, htexture⟩ := (showsFrame_iff_lt hi ht).mpr hlt
  rw [hi] at hj
  rw [← h.textures_eq, Option.some.inj hj]
  exact htexture

end Play

/-- Where an animation with so many frames comes to rest, in frames and parts of a frame. -/
noncomputable def restingPoint (frames : ℕ) (rate : ℝ) : ℝ :=
  max (frames - endMargin * rate) 0 + frameMargin

section Exact

variable {a : Animation ℝ} {art : Art ℝ} {frames : ℕ} {rate bound dt : ℝ}

theorem endMargin_eq : (endMargin : ℝ) = 1 / 10 ^ 6 := by
  rw [endMargin, Exact.decimal_eq, Nat.cast_one]

theorem frameMargin_eq : (frameMargin : ℝ) = 1 / 10 ^ 7 := by
  rw [frameMargin, Exact.decimal_eq, Nat.cast_one]

theorem restingPoint_eq (frames : ℕ) (rate : ℝ) :
    restingPoint frames rate = max (frames - rate / 10 ^ 6) 0 + 1 / 10 ^ 7 := by
  rw [restingPoint, endMargin_eq, frameMargin_eq, one_div_mul_eq_div]

theorem restingPoint_pos (frames : ℕ) (rate : ℝ) : 0 < restingPoint frames rate := by
  rw [restingPoint_eq]
  exact add_pos_of_nonneg_of_pos (le_max_right _ _) (by norm_num)

theorem le_restingPoint (h : bound ≤ frames - rate / 10 ^ 6 + 1 / 10 ^ 7) :
    bound ≤ restingPoint frames rate := by
  rw [restingPoint_eq]
  exact h.trans (add_le_add_left (le_max_left _ _) _)

theorem restingPoint_lt (h : frames - rate / 10 ^ 6 + 1 / 10 ^ 7 < bound)
    (hbound : 1 ≤ bound) : restingPoint frames rate < bound := by
  rw [restingPoint_eq, ← lt_sub_iff_add_lt, max_lt_iff]
  constructor <;> linarith

/-- Frames that last longer than the margin in time, and less than it takes to be rounded up. -/
theorem floor_restingPoint_last (hslow : 1 / 10 < rate)
    (hfast : rate ≤ 10 ^ 6 + 1 / 10 ∨ frames = 0) :
    ⌊restingPoint (frames + 1) rate⌋₊ = frames := by
  have hframes : (0 : ℝ) ≤ frames := Nat.cast_nonneg frames
  rw [Nat.floor_eq_iff (restingPoint_pos _ _).le]
  constructor
  · rcases hfast with hfast | rfl
    · apply le_restingPoint
      rw [Nat.cast_succ]
      linarith
    · rw [Nat.cast_zero]
      exact (restingPoint_pos _ _).le
  · apply restingPoint_lt _ (by linarith)
    rw [Nat.cast_succ]
    linarith

/-- Frames so long that the number is rounded up by more than the end is stopped short of. -/
theorem floor_restingPoint_end (hrate : 0 < rate) (hslow : rate ≤ 1 / 10) :
    ⌊restingPoint frames rate⌋₊ = frames := by
  have hframes : (0 : ℝ) ≤ frames := Nat.cast_nonneg frames
  rw [Nat.floor_eq_iff (restingPoint_pos _ _).le]
  constructor
  · apply le_restingPoint
    linarith
  · apply restingPoint_lt _ (by linarith)
    linarith

/-- More than one frame, each shorter than the margin in time. -/
theorem floor_restingPoint_early (hfast : 10 ^ 6 + 1 / 10 < rate) (hframes : frames ≠ 0) :
    ⌊restingPoint (frames + 1) rate⌋₊ < frames := by
  have hmore : (1 : ℝ) ≤ frames := Nat.one_le_cast.mpr (Nat.pos_of_ne_zero hframes)
  rw [Nat.floor_lt (restingPoint_pos _ _).le]
  apply restingPoint_lt _ hmore
  rw [Nat.cast_succ]
  linarith

theorem elapsed_mul_eq (hrate : 0 < rate) :
    max (frames / rate - 1 / 10 ^ 6) 0 * rate + 1 / 10 ^ 7 = restingPoint frames rate := by
  rw [max_mul_of_nonneg _ _ hrate.le, sub_mul, div_mul_cancel₀ _ hrate.ne', zero_mul,
    one_div_mul_eq_div, restingPoint_eq]

theorem Plays.elapsed_of_past (h : Plays art a) (hloops : art.loops = false)
    (hpast : art.duration < a.elapsed + dt) :
    (a.advance dt).elapsed = max (art.duration - 1 / 10 ^ 6) 0 := by
  rw [← h.duration_eq] at hpast ⊢
  rw [Animation.elapsed_of_past (h.loops_eq.trans hloops) hpast, Exact.atLeastZero_eq,
    endMargin_eq]

/-- An animation that does not loop and is taken past its end comes to rest at the resting point,
whose frame may be one too many. -/
theorem Plays.frameIndex?_of_past (h : Plays art a) (hrate : 0 < art.framerate)
    (hduration : art.duration = art.frameCount / art.framerate) (hloops : art.loops = false)
    (hpast : art.duration < a.elapsed + dt) :
    (a.advance dt).frameIndex? = some ⌊restingPoint art.frameCount art.framerate⌋₊ := by
  have hafter := h.advance dt
  have helapsed := h.elapsed_of_past hloops hpast
  have hclip : InClip (a.advance dt) := by
    have hnonneg : 0 ≤ art.duration := by
      rw [hduration]
      positivity
    constructor
    · rw [helapsed]
      exact le_max_right _ _
    · rw [helapsed, hafter.duration_eq]
      exact max_le (by linarith) hnonneg
  rw [frameIndex?_eq hclip (hafter.framerate_eq ▸ hrate), helapsed, hafter.framerate_eq, hduration,
    elapsed_mul_eq hrate]

/-- Past its end, before rounding and whatever it was advanced by, an animation stops a millionth of
a second before the end, or at its start if the clip is shorter. There it rests on its last frame if
it plays more than a tenth of a frame a second, and either up to about a million or just the one. If
it is slower it shows nothing, and if it is faster an earlier frame. -/
theorem rests_after_end (library : TextureLibrary) (descriptions : List (ArtDescription ℝ))
    (art : Art ℝ) (hart : art ∈ (Art.prepareAll library descriptions).1)
    (hrate : 0 < art.framerate) (hloops : art.loops = false) (hframes : 0 < art.frameCount)
    (a : Animation ℝ) (maxLife : ℝ) (dts : List ℝ) (dt : ℝ)
    (hpast : art.duration < (((a.play art).restart maxLife).advanceAll dts).elapsed + dt) :
    let b := (((a.play art).restart maxLife).advanceAll dts).advance dt
    b.elapsed = max (art.duration - 1 / 10 ^ 6) 0 ∧
    (1 / 10 < art.framerate → art.framerate ≤ 10 ^ 6 + 1 / 10 ∨ art.frameCount = 1 →
      b.frameIndex? = some (art.frameCount - 1) ∧
      art.textures[art.frameCount - 1]? = some b.texture) ∧
    (art.framerate ≤ 1 / 10 → b.frameIndex? = some art.frameCount ∧ b.texture = .empty) ∧
    (10 ^ 6 + 1 / 10 < art.framerate → art.frameCount ≠ 1 → ∃ i, i + 1 < art.frameCount ∧
      b.frameIndex? = some i ∧ art.textures[i]? = some b.texture) := by
  intro b
  have hduration := duration_of_mem_prepareAll hart hrate
  have hbefore := (plays_restart a maxLife hrate.not_gt).advanceAll dts
  have hplays : Plays art b := hbefore.advance dt
  have hindex : b.frameIndex? = _ := hbefore.frameIndex?_of_past hrate hduration hloops hpast
  have htexture : b.texture = b.currentTexture := texture_advance _ dt
  obtain ⟨last, hlast⟩ := Nat.exists_eq_add_one.mpr hframes
  refine ⟨hbefore.elapsed_of_past hloops hpast, ?_, ?_, ?_⟩
  · intro hslow hfast
    have hone : art.frameCount = 1 → last = 0 := by omega
    rw [hlast, floor_restingPoint_last hslow (hfast.imp_right hone)] at hindex
    rw [hlast, Nat.add_sub_cancel]
    exact ⟨hindex, hplays.texture_eq hindex htexture (by omega)⟩
  · intro hslow
    rw [floor_restingPoint_end hrate hslow] at hindex
    have hcount : b.frameCount = art.frameCount := congrArg List.length hplays.textures_eq
    exact ⟨hindex, texture_eq_empty hindex htexture hcount.le⟩
  · intro hfast hmany
    have hearly := floor_restingPoint_early hfast (show last ≠ 0 by omega)
    rw [← hlast] at hearly
    exact ⟨_, by omega, hindex, hplays.texture_eq hindex htexture (by omega)⟩

theorem pair_mem_prepareAll (hrate : 0 < rate) :
    (⟨[⟨1, "a"⟩, ⟨2, "b"⟩], rate, 2 / rate, false⟩ : Art ℝ) ∈ (Art.prepareAll .empty
      [⟨.fixed rate, false, [.once (.named "a"), .once (.named "b")]⟩]).1 := by
  have hprepared : (Art.prepareAll .empty
      [⟨.fixed rate, false, [.once (.named "a"), .once (.named "b")]⟩]).1 =
        [⟨[⟨1, "a"⟩, ⟨2, "b"⟩], if 0 < rate then rate else Art.defaultFramerate,
          Scalar.ofNat 2 / if 0 < rate then rate else Art.defaultFramerate, false⟩] := rfl
  rw [hprepared, if_pos hrate, Exact.ofNat_eq]
  exact List.mem_singleton.mpr rfl

/-- Two frames, played for longer than they last: of half a second each the second one stays, and of
sixteen seconds each none does. -/
theorem rests_after_end_pair :
    let art (rate : ℝ) : Art ℝ := ⟨[⟨1, "a"⟩, ⟨2, "b"⟩], rate, 2 / rate, false⟩
    let description (rate : ℝ) : ArtDescription ℝ :=
      ⟨.fixed rate, false, [.once (.named "a"), .once (.named "b")]⟩
    let rest (rate : ℝ) := ((empty.play (art rate)).restart 1).advance 40
    (art 2 ∈ (Art.prepareAll .empty [description 2]).1 ∧ (art 2).duration < 0 + 40 ∧
      (rest 2).frameIndex? = some 1 ∧ (rest 2).texture = ⟨2, "b"⟩) ∧
    art (1 / 16) ∈ (Art.prepareAll .empty [description (1 / 16)]).1 ∧
      (art (1 / 16)).duration < 0 + 40 ∧
      (rest (1 / 16)).frameIndex? = some 2 ∧ (rest (1 / 16)).texture = .empty := by
  intro art description rest
  have hfast : (art 2).duration < 0 + 40 := by
    show (2 : ℝ) / 2 < 0 + 40
    norm_num
  have hslow : (art (1 / 16)).duration < 0 + 40 := by
    show (2 : ℝ) / (1 / 16) < 0 + 40
    norm_num
  have hmem := pair_mem_prepareAll two_pos
  have hmem' := pair_mem_prepareAll (show (0 : ℝ) < 1 / 16 by norm_num)
  obtain ⟨-, hlast, -, -⟩ := rests_after_end .empty [description 2] (art 2) hmem two_pos rfl two_pos
    empty 1 [] 40 hfast
  obtain ⟨-, -, hnone, -⟩ := rests_after_end .empty [description (1 / 16)] (art (1 / 16)) hmem'
    (by norm_num) rfl two_pos empty 1 [] 40 hslow
  obtain ⟨hindex, htexture⟩ := hlast (by norm_num) (.inl (by norm_num))
  exact ⟨⟨hmem, hfast, hindex, (Option.some.inj htexture).symm⟩, hmem', hslow, hnone (by norm_num)⟩

end Exact

/-- Nothing is shown of clips that are over: two frames of sixteen seconds each, and forty frames of
a second each, which together last so long that the margin in time is lost to rounding. -/
theorem nothing_shown_at_rest :
    let art (count : Nat) (rate : Float32) :=
      (Art.prepare .empty ⟨.fixed rate, false, List.replicate count (.once (.named "a"))⟩).1
    let rest (count : Nat) (rate : Float32) := ((empty.play (art count rate)).restart 1).advance 48
    ((art 2 0.0625).frameCount = 2 ∧ 0 < (art 2 0.0625).framerate ∧
      (art 2 0.0625).duration < 0 + 48 ∧
      (rest 2 0.0625).frameIndex? = some 2 ∧ (rest 2 0.0625).texture = .empty) ∧
    (art 40 1).frameCount = 40 ∧ 0 < (art 40 1).framerate ∧ (art 40 1).duration < 0 + 48 ∧
      (rest 40 1).frameIndex? = some 40 ∧ (rest 40 1).texture = .empty := by
  decide +kernel

end Animation

end SparkTrail
