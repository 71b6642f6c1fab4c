import SparkTrail.Proofs.Particle.Fit
import SparkTrail.Proofs.Pool.Alone

/-!
# Running a pool with every access checked

A launch uses a slot by its number, which is free or new and so is there. An update goes through the
slots and updates what lives in them; all of that is fit for it, because it was so when it was
launched and has been since. So as long as lifetimes and times are numbers and curves are built in
order, a pool never comes to a hazard. A frame that is out of range is no hazard: the empty texture
is shown for it.
-/
namespace SparkTrail.Pool

open Scalar

/-- The pool with what became of each slot, and the number of lives that ended. -/
def collect {α : Type} (pool : Pool α) (results : List (Bool × PathParticle α)) : ℕ × Pool α :=
  let retired := (results.zipIdx.filter fun (r, _) => r.1).map fun (_, slot) => slot
  (retired.length,
    { pool with slots := results.map (·.2), free := retired.reverse ++ pool.free })

theorem sweep_eq_collect {α : Type} (step : PathParticle α → Bool × PathParticle α)
    (pool : Pool α) : pool.sweep step = pool.collect (pool.slots.map step) := rfl

section Checked

variable {α : Type} [Scalar α] {pool : Pool α} {dt : α}

def checkedLaunch (pool : Pool α) (slot : ℕ) (l : Launch α) (art : Option (Art α))
    (path : Option Path) : Except Hazard (Pool α) :=
  if slot < pool.slots.length then
    return { pool with slots := pool.slots.modify slot (·.launch l art path) }
  else throw .noSlot

def checkedSpawn (pool : Pool α) (l : Launch α) (art : Option (Art α)) (path : Option Path) :
    Except Hazard (Option ℕ × Pool α) :=
  match pool.free with
  | slot :: free => do return (some slot, ← { pool with free }.checkedLaunch slot l art path)
  | [] =>
    if pool.slots.length < pool.capacity then do
      let grown := { pool with slots := pool.slots ++ [PathParticle.unborn] }
      return (some pool.slots.length, ← grown.checkedLaunch pool.slots.length l art path)
    else return (none, pool)

def checkedStepSlot (dt : α) (p : PathParticle α) : Except Hazard (Bool × PathParticle α) :=
  if p.isActive then do
    match ← p.checkedUpdate dt with
    | (some _, p) => return (false, p)
    | (none, p) => return (true, p.destroy)
  else return (false, p)

def checkedUpdate (pool : Pool α) (dt : α) : Except Hazard (ℕ × Pool α) := do
  return pool.collect (← pool.slots.mapM (checkedStepSlot dt))

/-- The pool after an event. A clearing goes through the slots and does not look anything up. -/
def checkedStep (pool : Pool α) : Event α → Except Hazard (Pool α)
  | .spawn l art path => do return (← pool.checkedSpawn l art path).2
  | .update dt => do return (← pool.checkedUpdate dt).2
  | e => return pool.step e

def checkedRun (pool : Pool α) (events : List (Event α)) : Except Hazard (Pool α) :=
  events.foldlM checkedStep pool

/-- A slot that is free or new can be launched in. -/
theorem Sound.checkedSpawn_eq (h : pool.Sound) (l : Launch α) (art : Option (Art α))
    (path : Option Path) : pool.checkedSpawn l art path = .ok (pool.spawn l art path) := by
  rw [checkedSpawn, Pool.spawn]
  cases hfree : pool.free with
  | cons slot free =>
    have hslot : slot < pool.slots.length := h.lt_length (hfree ▸ List.mem_cons_self)
    dsimp only
    rw [checkedLaunch, if_pos hslot]
    rfl
  | nil =>
    by_cases hroom : pool.slots.length < pool.capacity
    · have hslot : pool.slots.length < (pool.slots ++ [PathParticle.unborn]).length := by
        rw [List.length_append]
        exact Nat.lt_add_one _
      have hnew : (pool.slots ++ [PathParticle.unborn]).modify pool.slots.length
          (·.launch l art path) = pool.slots ++ [PathParticle.unborn.launch l art path] :=
        List.modifyTailIdx_add _ 0 pool.slots [PathParticle.unborn]
      dsimp only
      rw [if_pos hroom, if_pos hroom, checkedLaunch, if_pos hslot, hnew]
      rfl
    · dsimp only
      rw [if_neg hroom, if_neg hroom]
      rfl

theorem checkedStepSlot_eq [Ordered α] {p : PathParticle α}
    (h : p.isActive = true → p.base.Ready dt) : checkedStepSlot dt p = .ok (stepSlot dt p) := by
  rw [checkedStepSlot, stepSlot]
  by_cases hp : p.isActive = true
  · rw [if_pos hp, if_pos hp, PathParticle.checkedUpdate_eq (h hp)]
    cases p.update dt with
    | mk progress? q => cases progress? <;> rfl
  · rw [if_neg hp, if_neg hp]
    rfl

theorem mapM_eq_ok {β γ : Type} {f : β → Except Hazard γ} {g : β → γ} {l : List β}
    (h : ∀ b ∈ l, f b = .ok (g b)) : l.mapM f = .ok (l.map g) := by
  induction l with
  | nil => rfl
  | cons b l ih =>
    obtain ⟨hb, hl⟩ := List.forall_mem_cons.mp h
    rw [List.mapM_cons, hb, ih hl]
    rfl

/-- An update comes to no hazard if all that lives is ready for it. -/
theorem checkedUpdate_eq [Ordered α] (h : ∀ i p, pool.get? i = some p → p.base.Ready dt) :
    pool.checkedUpdate dt = .ok (pool.update dt) := by
  have hslots : pool.slots.mapM (checkedStepSlot dt) = .ok (pool.slots.map (stepSlot dt)) := by
    refine mapM_eq_ok fun p hp => checkedStepSlot_eq fun hactive => ?_
    obtain ⟨i, hi⟩ := List.mem_iff_getElem?.mp hp
    exact h i p (get?_eq_some.mpr ⟨hi, hactive⟩)
  rw [checkedUpdate, hslots, update, sweep_eq_collect]
  rfl

/-- What every launched particle is and every update keeps, all living particles are. -/
theorem Sound.living_step {P : PathParticle α → Prop} {e : Event α} (h : pool.Sound)
    (hliving : ∀ i p, pool.get? i = some p → P p) (hmodify : ∀ slot change, e ≠ .modify slot change)
    (hspawn : ∀ l art path, e = .spawn l art path → P (PathParticle.unborn.launch l art path))
    (hupdate : ∀ dt p q, e = .update dt → P p → p.next? dt = some q → P q) :
    ∀ i p, (pool.step e).get? i = some p → P p := by
  intro i q hq
  by_cases hi : pool.handed? e = some i
  · cases e with
    | spawn l art path =>
      obtain ⟨hslot, -⟩ := get?_eq_some.mp hq
      obtain ⟨hnew, -⟩ := h.slots_spawn (Prod.ext hi rfl)
      obtain rfl := Option.some.inj (hnew.symm.trans hslot)
      exact hspawn l art path rfl
    | update dt => cases hi
    | clear => cases hi
    | modify slot change => cases hi
  · rw [h.get?_step (hmodify i) hi] at hq
    obtain ⟨p, hp, hevent⟩ := Option.bind_eq_some_iff.mp hq
    have hbefore := hliving i p hp
    cases e with
    | spawn l art path =>
      obtain rfl := Option.some.inj hevent
      exact hbefore
    | update dt => exact hupdate dt p q rfl hbefore hevent
    | clear => cases hevent
    | modify slot change => exact absurd rfl (hmodify slot change)

end Checked

section Floats

variable {pool : Pool Float32} {e : Event Float32} {events : List (Event Float32)}

/-- Launches with a lifetime that is a number and a curve that was built, updates by a time that is
a number, and clearings. -/
def Event.IsProper : Event Float32 → Prop
  | .spawn l _ _ => l.maxLife.isNaN = false ∧ ∀ curve, l.speedCurve = some curve → curve.IsBuilt
  | .update dt => dt.isNaN = false
  | .clear => True
  | .modify _ _ => False

/-- All that lives in a pool is fit for any update. -/
def AllFit (pool : Pool Float32) : Prop :=
  ∀ i p, pool.get? i = some p → p.Fit

theorem allFit_empty (capacity : ℕ) : (empty capacity).AllFit := by
  intro i p hp
  obtain ⟨hslot, -⟩ := get?_eq_some.mp hp
  cases hslot

/-- A proper event leaves all that lives fit. -/
theorem Sound.allFit_step (h : pool.Sound) (hfit : pool.AllFit) (he : e.IsProper) :
    (pool.step e).AllFit := by
  refine h.living_step hfit ?_ ?_ ?_
  · rintro slot change rfl
    exact he
  · rintro l art path rfl
    obtain ⟨hlife, hcurve⟩ := he
    exact PathParticle.fit_launch (Single.isNumber_iff.mpr hlife)
      (fun curve hc => (hcurve curve hc).inOrder) art path
  · rintro dt p q rfl hp hq
    exact hp.next (Single.isNumber_iff.mpr he) hq

/-- A proper event comes to no hazard while all that lives is fit. -/
theorem Sound.checkedStep_eq (h : pool.Sound) (hfit : pool.AllFit) (he : e.IsProper) :
    pool.checkedStep e = .ok (pool.step e) := by
  cases e with
  | spawn l art path =>
    rw [checkedStep, h.checkedSpawn_eq]
    rfl
  | update dt =>
    have hupdate := checkedUpdate_eq fun i p hp => (hfit i p hp).ready (Single.isNumber_iff.mpr he)
    rw [checkedStep, hupdate]
    rfl
  | clear => rfl
  | modify slot change => rfl

/-- No event stops a run, and what lives stays fit. -/
theorem Sound.checkedRun_eq (h : pool.Sound) (hfit : pool.AllFit)
    (hevents : ∀ e ∈ events, e.IsProper) :
    pool.checkedRun events = .ok (pool.run events) ∧ (pool.run events).AllFit := by
  induction events generalizing pool with
  | nil => exact ⟨rfl, hfit⟩
  | cons e events ih =>
    obtain ⟨he, hevents⟩ := List.forall_mem_cons.mp hevents
    have hstep : pool.checkedRun (e :: events) = (pool.step e).checkedRun events := by
      rw [checkedRun, List.foldlM_cons, h.checkedStep_eq hfit he]
      rfl
    rw [hstep]
    exact ih (h.step e) (h.allFit_step hfit he) hevents

theorem texture_of_update {p : PathParticle Float32} {i : ℕ} {dt : Float32}
    (hp : (pool.update dt).2.get? i = some p) :
    p.base.animation.texture = p.base.animation.checkedTexture := by
  rw [get?_update] at hp
  obtain ⟨q, -, hnext⟩ := Option.bind_eq_some_iff.mp hp
  rw [PathParticle.animation_of_next? hnext, Animation.checkedTexture_eq]
  rfl

/-- In a pool whose launches have lifetimes that are numbers, infinite and negative ones too, and
curves that were built by adding keyframes at times that are numbers, and which is updated by times
that are numbers, no update reads a curve at what is not a number, or a keyframe that is not there,
or divides by a lifetime that is not positive, and no launch uses a slot that is not there: with all
of that checked the pool does what it does without. Every living particle has a finite age from zero
up to its lifetime, and shows a frame of its own or none. After an update that is the frame of its
elapsed time, and the empty texture where that is out of range or where there is no such frame. -/
theorem run_without_hazard (capacity : ℕ) (hevents : ∀ e ∈ events, e.IsProper) :
    (empty capacity).checkedRun events = .ok ((empty capacity).run events) ∧
    (∀ i p, ((empty capacity).run events).get? i = some p →
      p.base.age.isFinite = true ∧ 0 ≤ p.base.age ∧
      (p.base.age = 0 ∨ p.base.age < p.base.maxLife) ∧ p.base.animation.ShowsOwn) ∧
    ∀ dt i p, (((empty capacity).run events).update dt).2.get? i = some p →
      let a := p.base.animation
      a.texture = match a.frameIndex? with
        | some frame => if h : frame < a.textures.length then a.textures[frame] else .empty
        | none => .empty := by
  obtain ⟨hrun, hfit⟩ := (sound_empty capacity).checkedRun_eq (allFit_empty capacity) hevents
  refine ⟨hrun, fun i p hp => ?_, fun dt i p hp => texture_of_update hp⟩
  have hp := hfit i p hp
  exact ⟨hp.isFinite, hp.nonneg, hp.age_lt, hp.showsOwn⟩

/-- What can be decided of the particle in a slot by running the pool. -/
theorem exists_get? {P : PathParticle Float32 → Prop} [DecidablePred P] {i : ℕ}
    (h : (pool.get? i).any (fun p => decide (P p)) = true) : ∃ p, pool.get? i = some p ∧ P p := by
  obtain ⟨p, hp, hdecided⟩ := (Option.any_eq_true _ _).mp h
  exact ⟨p, hp, of_decide_eq_true hdecided⟩

/-- A particle without art has no frames, and an update looks up its frame with the number zero. -/
theorem frame_out_of_range :
    let events : List (Event Float32) := [.spawn .default none none, .update 0.5]
    (∀ e ∈ events, e.IsProper) ∧ ∃ p, ((empty 1).run events).get? 0 = some p ∧
      p.base.animation.frameIndex? = some 0 ∧ ¬ 0 < p.base.animation.textures.length ∧
      p.base.animation.texture = .empty := by
  intro events
  have hspawn : (Event.spawn .default none none : Event Float32).IsProper := ⟨by decide, nofun⟩
  have hupdate : (0.5 : Float32).isNaN = false := by decide
  refine ⟨List.forall_mem_cons.mpr ⟨hspawn, List.forall_mem_singleton.mpr hupdate⟩, ?_⟩
  exact exists_get? (by decide)

def hazard? : Except Hazard (Pool Float32) → Option Hazard
  | .ok _ => none
  | .error hazard => some hazard

/-- A particle that would live for ever and one that lives for less than nothing. Each lives until
the next update that ends its life, the one that takes for ever too, and their slots are used again.
The last particle has art, and after a quarter of a second it shows its second frame. A step, a
lifetime and a keyframe at times that are not numbers are stopped, each at its own check. -/
theorem run_without_hazard_for_ever :
    let endless : Launch Float32 :=
      { Launch.default with maxLife := 1 / 0, speedCurve := some (.line 1 3) }
    let art : Art Float32 := ⟨[⟨1, "a"⟩, ⟨2, "b"⟩], 4, 0.5, false⟩
    let stillborn : Launch Float32 := { Launch.default with maxLife := -1 }
    let events : List (Event Float32) :=
      [.spawn endless none none, .spawn stillborn none (some ⟨.var, "x"⟩), .update 1,
        .spawn endless none none, .update (1 / 0), .spawn endless (some art) none]
    let pool : Pool Float32 := (empty 2).run events
    (∀ e ∈ events, e.IsProper) ∧ (empty 2).checkedRun events = .ok pool ∧
      (pool.slots.length, pool.free) = (2, [0]) ∧
      (∃ p, (pool.update 0.25).2.get? 1 = some p ∧ p.base.animation.frameIndex? = some 1 ∧
        p.base.animation.texture = ⟨2, "b"⟩) ∧
      hazard? ((empty 1).checkedRun [.spawn endless none none, .update (0 / 0)]) =
        some .notANumber ∧
      hazard? ((empty 1).checkedRun
        [.spawn { endless with maxLife := 0 / 0 } none none, .update 1]) = some .noLifetime ∧
      hazard? ((empty 1).checkedRun
        [.spawn { endless with speedCurve := some ⟨[⟨0 / 0, 1⟩, ⟨1, 2⟩], .linear⟩ } none none,
          .update 1]) = some .noKeyframe := by
  intro endless art stillborn events pool
  have hendless (art : Option (Art Float32)) : (Event.spawn endless art none).IsProper := by
    refine ⟨by decide +kernel, ?_⟩
    rintro curve ⟨⟩
    exact ⟨_, _, [], .line 1 3, nofun, rfl⟩
  have hstillborn : (Event.spawn stillborn none (some ⟨.var, "x"⟩)).IsProper :=
    ⟨by decide, nofun⟩
  have hshort : (1 : Float32).isNaN = false := by decide
  have hlong : (1 / 0 : Float32).isNaN = false := by decide +kernel
  have hevents : ∀ e ∈ events, e.IsProper :=
    List.forall_mem_cons.mpr ⟨hendless none, List.forall_mem_cons.mpr ⟨hstillborn,
      List.forall_mem_cons.mpr ⟨hshort, List.forall_mem_cons.mpr ⟨hendless none,
        List.forall_mem_cons.mpr ⟨hlong, List.forall_mem_singleton.mpr (hendless (some art))⟩⟩⟩⟩⟩
  obtain ⟨hrun, -, htexture⟩ := run_without_hazard 2 hevents
  refine ⟨hevents, hrun, by decide +kernel, ?_, by decide +kernel, by decide +kernel,
    by decide +kernel⟩
  obtain ⟨p, hp, hindex, htextures⟩ : ∃ p, (pool.update 0.25).2.get? 1 = some p ∧
      p.base.animation.frameIndex? = some 1 ∧ p.base.animation.textures = art.textures :=
    exists_get? (by decide +kernel)
  have hshown := htexture 0.25 1 p hp
  simp only [hindex, htextures] at hshown
  exact ⟨p, hp, hindex, hshown⟩

end Floats

end SparkTrail.Pool
