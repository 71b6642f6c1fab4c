import SparkTrail.Proofs.Animation.Frames
import SparkTrail.Proofs.Art.Expansion
import SparkTrail.Proofs.Particle.Run

/-!
# Frames that last a whole life

An animation whose frames last as long as the particle lives gets its timing from the life that
begins. From then on its elapsed time and the age of the particle are sums of the same times, and a
life ends before the animation could pass its end, so the animation is played just once and says how
much of the life is over. Neither rounding nor a step back in time can separate the two.
-/
namespace SparkTrail

open Scalar

section Step

variable {α : Type} [Scalar α] {art : Art α} {life dt : α} {q : Particle α} {a : Animation α}

/-- The art was described by frames that are to last as long as the particle lives. -/
def Art.LastsALife (art : Art α) : Prop :=
  ∃ (library : TextureLibrary) (ds : List (ArtDescription α)) (d : ArtDescription α),
    (d, art) ∈ ds.zip (prepareAll library ds).1 ∧ d.framerate = .matchLife

theorem Art.lastsALife_prepare (library : TextureLibrary) (loops : Bool)
    (entries : List FrameEntry) :
    (prepare library (⟨.matchLife, loops, entries⟩ : ArtDescription α)).1.LastsALife :=
  ⟨library, [⟨.matchLife, loops, entries⟩], ⟨.matchLife, loops, entries⟩, List.mem_cons_self, rfl⟩

/-- No framerate but a mark in its place, and no loop, whatever the description says of loops. -/
theorem Art.LastsALife.eq (h : art.LastsALife) : art = ⟨art.textures, -1, 0, false⟩ := by
  obtain ⟨library, ds, d, hmem, hd⟩ := h
  have hprepared := List.forall₂_zip (prepared_prepareAll (.refl (prepareAll library ds).2)) hmem
  have heq := hprepared.eq_ofFrames
  rwa [hd] at heq

/-- The animation has the frames of the art, timed for a life. -/
structure Animation.TimedFor (art : Art α) (life : α) (a : Animation α) : Prop where
  textures_eq : a.textures = art.textures
  duration_eq : a.duration = life
  framerate_eq : a.framerate = Scalar.ofNat art.frameCount / life

theorem Animation.timedFor_restart (a : Animation α) (hneg : art.framerate < 0) (hlife : 0 < life) :
    TimedFor art life ((a.play art).restart life) := by
  have hm : (a.play art).matchesLife = true := decide_eq_true hneg
  rw [restart, hm, if_pos rfl, if_pos hlife]
  exact ⟨rfl, rfl, rfl⟩

namespace Particle

/-- In a life of a given length, with an animation that is timed for it and as old as the
particle. -/
structure InStep (art : Art α) (life : α) (q : Particle α) : Prop where
  maxLife_eq : q.maxLife = life
  timed : q.animation.TimedFor art life
  elapsed_eq : q.animation.elapsed = q.age
  not_neg : ¬ q.age < 0

/-- What is true of an update if the animation keeps in step with a life: it neither goes back to
its start nor is held before its end, lasts as long as the life, and is as old as the particle. -/
structure KeepsStep (life : α) (q : Particle α) (dt : α) : Prop where
  within : ¬ q.animation.duration < q.animation.elapsed + dt
  duration_eq : (q.update dt).2.animation.duration = life
  elapsed_eq : (q.update dt).2.animation.elapsed = (q.update dt).2.age

/-- A particle that lives behind an update lived before it. -/
theorem lives_of_update (h : (q.update dt).2.phase = .active) :
    ¬ q.Expires dt ∧ q.phase = .active := by
  by_cases hx : q.Expires dt
  · rw [update_of_expires hx] at h
    cases h
  · rw [update_of_not_expires hx] at h
    exact ⟨hx, h⟩

/-- Who lives has lived all the time. -/
theorem lives_of_afterAll {dts : List α} (h : (q.afterAll dts).phase = .active) :
    q.phase = .active := by
  induction dts generalizing q with
  | nil => exact h
  | cons dt dts ih => exact (lives_of_update (ih h)).2

variable [Ordered α]

theorem inStep_activate (hart : art.LastsALife) (hminus : (-1 : α) < 0) (p : Particle α)
    (hlife : 0 < p.maxLife) : InStep art p.maxLife (p.activate (some art)) := by
  have hneg : art.framerate < 0 := by
    rw [hart.eq]
    exact hminus
  refine ⟨rfl, p.animation.timedFor_restart hneg hlife, rfl, fun hzero => ?_⟩
  exact Ordered.not_le_of_lt hzero (Ordered.le_of_lt hzero)

/-- The life ends where the clip does, and the end of the clip is passed only behind it. -/
theorem InStep.within (h : InStep art life q) (hx : ¬ q.Expires dt) :
    ¬ q.animation.duration < q.animation.elapsed + dt := by
  intro hpast
  rw [h.timed.duration_eq, h.elapsed_eq, ← h.maxLife_eq] at hpast
  exact hx (.inl (Ordered.le_of_lt hpast))

/-- An update within the life adds the same time to the age and to the animation. -/
theorem InStep.update (h : InStep art life q) (hx : ¬ q.Expires dt) :
    InStep art life (q.update dt).2 := by
  have helapsed := Animation.elapsed_advance (h.within hx)
  rw [update_of_not_expires hx]
  refine ⟨h.maxLife_eq, ⟨h.timed.textures_eq, h.timed.duration_eq, h.timed.framerate_eq⟩, ?_, ?_⟩
  · rw [helapsed, h.elapsed_eq]
  · exact fun hneg => hx (.inr hneg)

theorem InStep.afterAll {dts : List α} (h : InStep art life q)
    (hlives : (q.afterAll dts).phase = .active) : InStep art life (q.afterAll dts) := by
  induction dts generalizing q with
  | nil => exact h
  | cons dt dts ih => exact ih (h.update (lives_of_update (lives_of_afterAll hlives)).1) hlives

theorem InStep.keepsStep (h : InStep art life q) (hx : ¬ q.Expires dt) : KeepsStep life q dt :=
  ⟨h.within hx, (h.update hx).timed.duration_eq, (h.update hx).elapsed_eq⟩

end Particle

end Step

section Path

variable {α : Type} [Scalar α] {p q : Particle α} {s : PathParticle α}

/-- Particles of one age go on with their animations alike. -/
theorem Particle.Coeval.animation_update (h : Coeval p q) (ha : p.animation = q.animation)
    (dt : α) : (p.update dt).2.animation = (q.update dt).2.animation := by
  by_cases hx : p.Expires dt
  · rw [update_of_expires hx, update_of_expires ((h.expires_iff dt).mp hx)]
    exact ha
  · rw [update_of_not_expires hx, update_of_not_expires (mt (h.expires_iff dt).mpr hx)]
    exact congrArg (fun a : Animation α => a.advance dt) ha

/-- A path has no say in what is shown. -/
theorem PathParticle.animation_afterAll (h : Particle.Coeval s.base q)
    (ha : s.base.animation = q.animation) (dts : List α) :
    (s.afterAll dts).base.animation = (q.afterAll dts).animation := by
  induction dts generalizing s q with
  | nil => exact ha
  | cons dt dts ih =>
    obtain ⟨position, hbase⟩ := s.base_update dt
    have hpath : (s.update dt).2.base.animation = (s.base.update dt).2.animation := by rw [hbase]
    exact ih (coeval_update h dt).2 (hpath.trans (h.animation_update ha dt))

end Path

namespace Particle

variable {art : Art ℝ} {life dt : ℝ} {q : Particle ℝ}

/-- The frame says how much of the life is over. -/
theorem InStep.frameIndex?_eq (h : InStep art life q) (hlife : 0 < life) :
    q.animation.frameIndex? = some ⌊art.frameCount * (q.age / life) + 1 / 10 ^ 7⌋₊ := by
  have hage : 0 ≤ q.age := not_lt.mp h.not_neg
  have hframe : q.animation.elapsed * q.animation.framerate = art.frameCount * (q.age / life) := by
    rw [h.elapsed_eq, h.timed.framerate_eq, Exact.ofNat_eq]
    ring
  rw [← hframe]
  refine Animation.frameIndex?_of_nonneg ?_
  rw [hframe]
  positivity

theorem floor_frame_mono (frames : ℕ) {age later : ℝ} (hlife : 0 < life) (hle : age ≤ later) :
    ⌊frames * (age / life) + 1 / 10 ^ 7⌋₊ ≤ ⌊frames * (later / life) + 1 / 10 ^ 7⌋₊ := by
  refine Nat.floor_mono (add_le_add_left ?_ _)
  gcongr

/-- Frames that last as long as the particle lives are played once. Whatever the particle is updated
by, as long as it lives the animation neither goes back to its start nor is held before its end, it
lasts as long as the life, and it is as old as the particle; that is so for rounded numbers as for
exact ones. Before rounding the number of the frame is that of all frames times the progress,
rounded down past a small margin. It is zero where the life begins, and an update that does not go
back in time never takes it back. With a path all of this is the same. (A curve that is read at what
is not a number counts as zero.) -/
theorem plays_once_in_step :
    (∀ art : Art Float32, art.LastsALife → ∀ p : Particle Float32, 0 < p.maxLife →
      ∀ (earlier : List Float32) (dt : Float32),
        let q := (p.activate (some art)).afterAll earlier
        (q.update dt).2.phase = .active → KeepsStep p.maxLife q dt) ∧
    (∀ art : Art ℝ, art.LastsALife → ∀ p : Particle ℝ, 0 < p.maxLife →
      (p.activate (some art)).animation.frameIndex? = some 0 ∧
      ∀ (earlier : List ℝ) (dt : ℝ), 0 ≤ dt →
        let q := (p.activate (some art)).afterAll earlier
        (q.update dt).2.phase = .active → KeepsStep p.maxLife q dt ∧
          ∃ progress before after, (q.update dt).1 = some progress ∧
            after = ⌊art.frameCount * progress + 1 / 10 ^ 7⌋₊ ∧
            (q.update dt).2.animation.frameIndex? = some after ∧
            q.animation.frameIndex? = some before ∧ before ≤ after) ∧
    ∀ (α : Type) [Scalar α] (s : PathParticle α) (art : Option (Art α)) (path : Option Path)
      (dts : List α),
      let onPath := (s.activate art path).afterAll dts
      let alone := (s.base.activate art).afterAll dts
      onPath.base.animation = alone.animation ∧ Coeval onPath.base alone ∧
        ∀ dt, (onPath.update dt).1 = (alone.update dt).1 := by
  refine ⟨?_, ?_, ?_⟩
  · intro art hart p hlife earlier dt q hlives
    obtain ⟨hx, hq⟩ := lives_of_update hlives
    exact ((inStep_activate hart (by decide) p hlife).afterAll hq).keepsStep hx
  · intro art hart p hlife
    have hminus : (-1 : ℝ) < 0 := by norm_num
    have hstart := inStep_activate hart hminus p hlife
    refine ⟨?_, ?_⟩
    · have hage : (p.activate (some art)).age = 0 := rfl
      rw [hstart.frameIndex?_eq hlife, hage, zero_div, mul_zero, zero_add]
      norm_num
    · intro earlier dt hdt q hlives
      obtain ⟨hx, hphase⟩ := lives_of_update hlives
      have hq : InStep art p.maxLife q := hstart.afterAll hphase
      have hafter := (hq.update hx).frameIndex?_eq hlife
      rw [age_update] at hafter
      refine ⟨hq.keepsStep hx, (q.age + dt) / p.maxLife, _, _, ?_, rfl, hafter,
        hq.frameIndex?_eq hlife, ?_⟩
      · rw [update_of_not_expires hx, hq.maxLife_eq]
      · exact floor_frame_mono _ hlife (le_add_of_nonneg_right hdt)
  · intro α _ s art path dts onPath alone
    have hstart : Coeval (s.activate art path).base (s.base.activate art) := ⟨rfl, rfl, rfl⟩
    have hages : Coeval onPath.base alone := PathParticle.coeval_afterAll hstart dts
    exact ⟨PathParticle.animation_afterAll hstart rfl dts, hages,
      fun dt => (PathParticle.coeval_update hages dt).1⟩

/-- Four frames that are said to loop, for a life of two seconds. After half a second and three
quarters of one more the animation is as old as the particle, in either kind of numbers, and more
than half of the frames are over. -/
theorem plays_once_in_step_four_frames :
    let art (α : Type) [Scalar α] : Art α := (Art.prepare .empty
      ⟨.matchLife, true, ["a", "b", "c", "d"].map fun name => .once (.named name)⟩).1
    let p (α : Type) [Scalar α] : Particle α := { unborn with maxLife := Scalar.ofNat 2 }
    let rounded := ((p Float32).activate (some (art Float32))).afterAll [0.5]
    let exact := ((p ℝ).activate (some (art ℝ))).afterAll [1 / 2]
    ((art Float32).LastsALife ∧ 0 < (p Float32).maxLife ∧
      (rounded.update 0.75).2.phase = .active ∧ KeepsStep 2 rounded 0.75) ∧
    (art ℝ).LastsALife ∧ 0 < (p ℝ).maxLife ∧ (0 : ℝ) ≤ 3 / 4 ∧
      (exact.update (3 / 4)).2.phase = .active ∧
      ((p ℝ).activate (some (art ℝ))).animation.frameIndex? = some 0 ∧
      (exact.update (3 / 4)).2.animation.frameIndex? = some 2 := by
  intro art p rounded exact
  have hrounded : (art Float32).LastsALife := Art.lastsALife_prepare _ _ _
  have hexact : (art ℝ).LastsALife := Art.lastsALife_prepare _ _ _
  have hlife : 0 < (p Float32).maxLife := by decide
  have hmax : (p ℝ).maxLife = 2 := Exact.ofNat_eq 2
  have hlife' : 0 < (p ℝ).maxLife := hmax ▸ two_pos
  have hlives : (rounded.update 0.75).2.phase = .active := by decide
  have hdt : (0 : ℝ) ≤ 3 / 4 := by norm_num
  have hage : exact.age = 0 + 1 / 2 := age_update _ _
  have hexactMax : exact.maxLife = 2 := (maxLife_update _ _).trans hmax
  have hfirst : ¬ ((p ℝ).activate (some (art ℝ))).Expires (1 / 2) := by
    show ¬ ((p ℝ).maxLife ≤ 0 + 1 / 2 ∨ (0 : ℝ) + 1 / 2 < 0)
    rw [hmax]
    norm_num
  have hsecond : ¬ exact.Expires (3 / 4) := by
    rw [Expires, hage, hexactMax]
    norm_num
  have hlives' : (exact.update (3 / 4)).2.phase = .active := by
    have hphase : exact.phase = .active := by
      show (((p ℝ).activate (some (art ℝ))).update (1 / 2)).2.phase = .active
      rw [update_of_not_expires hfirst]
      rfl
    rw [update_of_not_expires hsecond]
    exact hphase
  obtain ⟨hkeeps, hframes, -⟩ := plays_once_in_step
  obtain ⟨hzero, hrun⟩ := hframes (art ℝ) hexact (p ℝ) hlife'
  obtain ⟨-, progress, before, after, hprogress, hafter, hindex, -⟩ :=
    hrun [1 / 2] (3 / 4) hdt hlives'
  refine ⟨⟨hrounded, hlife, hlives, hkeeps _ hrounded _ hlife [0.5] 0.75 hlives⟩, hexact, hlife',
    hdt, hlives', hzero, ?_⟩
  have hpart : progress = 5 / 8 := by
    rw [update_of_not_expires hsecond, hage, hexactMax] at hprogress
    rw [← Option.some.inj hprogress]
    norm_num
  have hcount : ((art ℝ).frameCount : ℝ) = 4 := by
    show (((4 : ℕ)) : ℝ) = 4
    norm_num
  rw [hindex, hafter, hpart, hcount]
  norm_num

end Particle

end SparkTrail
