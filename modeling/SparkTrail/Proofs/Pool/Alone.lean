import SparkTrail.Proofs.Pool.Sound

/-!
# A pool is a set of independent particles

What lives in a slot is what it would be by itself: a newborn particle, launched, and then updated
as often as the pool was, by the same times. Neither what the slot held before nor what the other
slots hold plays a part, and a slot is lost to its particle only where the particle's own life ends
or the pool is cleared.
-/
namespace SparkTrail

variable {α : Type} [Scalar α]

/-- The particle after updates by these times, if it lives through all of them. -/
def PathParticle.after? (p : PathParticle α) (dts : List α) : Option (PathParticle α) :=
  dts.foldlM next? p

namespace Pool

def deltas (events : List (Event α)) : List α :=
  events.filterMap fun
    | .update dt => some dt
    | _ => none

/-- What an event does to a particle that it is not meant for alone. -/
def Event.on (p : PathParticle α) : Event α → Option (PathParticle α)
  | .update dt => p.next? dt
  | .clear => none
  | .spawn _ _ _ => some p
  | .modify _ _ => some p

/-- The particle by itself after events, if it lives through all of them. -/
def alone (p : PathParticle α) (events : List (Event α)) : Option (PathParticle α) :=
  events.foldlM Event.on p

variable {pool pool' : Pool α} {p q : PathParticle α} {e : Event α} {es : List (Event α)}
  {i capacity : Nat}

theorem alone_cons : alone p (e :: es) = (Event.on p e).bind (alone · es) := rfl

/-- A particle by itself lives through events if they do not clear the pool and it lives through the
updates. -/
theorem alone_eq_some :
    alone p es = some q ↔ Event.clear ∉ es ∧ p.after? (deltas es) = some q := by
  induction es generalizing p with
  | nil => simp [alone, PathParticle.after?, deltas]
  | cons e es ih =>
    rw [alone_cons]
    cases e with
    | spawn l art path => simpa [Event.on, deltas] using ih
    | modify slot change => simpa [Event.on, deltas] using ih
    | clear => simp [Event.on]
    | update dt =>
      have hafter : p.after? (deltas (.update dt :: es))
          = (p.next? dt).bind (·.after? (deltas es)) := rfl
      rw [hafter, Event.on]
      cases p.next? dt with
      | none => simp
      | some p' => simpa using ih

theorem alone_eq_none :
    alone p es = none ↔ Event.clear ∈ es ∨ p.after? (deltas es) = none := by
  rw [Option.eq_none_iff_forall_ne_some, Option.eq_none_iff_forall_ne_some]
  by_cases hc : Event.clear ∈ es
  · simp [alone_eq_some, hc]
  · simp [alone_eq_some, hc]

/-- An update takes the particle of a slot to its next state, or out of the slot. -/
theorem get?_update (pool : Pool α) (dt : α) (i : Nat) :
    (pool.update dt).2.get? i = (pool.get? i).bind (·.next? dt) := by
  rw [update, get?_sweep, get?]
  cases pool.slots[i]? with
  | none => rfl
  | some p =>
    rw [Option.map_some, Option.filter_some, Option.filter_some]
    cases hp : p.isActive with
    | false => simp [stepSlot_idle dt hp, hp]
    | true =>
      cases hn : p.next? dt with
      | none => simp [(stepSlot_none hp hn).2, hn]
      | some q =>
        obtain ⟨heq, hq⟩ := stepSlot_some hp hn
        simp [heq, hq, hn]

theorem get?_clear (pool : Pool α) (i : Nat) : pool.clear.get? i = none := by
  rw [clear, get?_sweep]
  cases pool.slots[i]? with
  | none => rfl
  | some p =>
    rw [Option.map_some, Option.filter_some, clearSlot]
    cases hp : p.isActive with
    | false => simp [hp]
    | true => simp [PathParticle.isActive_destroy]

/-- Anything that happens to a slot happens to its particle by itself, unless the slot is handed out
or changed from outside. -/
theorem Sound.get?_step (h : pool.Sound) (hm : ∀ change, e ≠ .modify i change)
    (hi : pool.handed? e ≠ some i) : (pool.step e).get? i = (pool.get? i).bind (Event.on · e) := by
  cases e with
  | update dt => exact get?_update pool dt i
  | clear =>
    rw [Pool.step, get?_clear]
    cases pool.get? i <;> rfl
  | spawn l art path =>
    have hsame : (pool.spawn l art path).2.slots[i]? = pool.slots[i]? := by
      cases ho : (pool.spawn l art path).1 with
      | none =>
        have hpool : (pool.spawn l art path).2 = pool := eq_of_spawn_none (Prod.ext ho rfl)
        rw [hpool]
      | some slot =>
        have hne : i ≠ slot := by
          rintro rfl
          exact hi ho
        exact (h.slots_spawn (Prod.ext ho rfl)).2 i hne
    rw [Pool.step, get?_congr hsame]
    cases pool.get? i <;> rfl
  | modify slot change =>
    have hne : slot ≠ i := by
      rintro rfl
      exact hm change rfl
    have hsame : ((pool.modify? slot change).getD pool).slots[i]? = pool.slots[i]? := by
      rw [Pool.modify?]
      cases pool.get? slot with
      | none => rfl
      | some p => exact List.getElem?_set_ne hne
    rw [Pool.step, get?_congr hsame]
    cases pool.get? i <;> rfl

/-- A slot in use is not handed out. -/
theorem Sound.handed?_ne (h : pool.Sound) (hp : pool.get? i = some p) (e : Event α) :
    pool.handed? e ≠ some i := by
  intro hi
  cases e with
  | spawn l art path =>
    have hnone := (h.handsOut (Prod.ext hi rfl)).before
    rw [hp] at hnone
    cases hnone
  | update dt => cases hi
  | clear => cases hi
  | modify slot change => cases hi

/-- A slot that is not handed out again holds what its particle is by itself. -/
theorem Sound.get?_run (h : pool.Sound) (hm : ∀ change, Event.modify i change ∉ es)
    (hi : i ∉ pool.handOuts es) : (pool.run es).get? i = (pool.get? i).bind (alone · es) := by
  induction es generalizing pool with
  | nil => exact (Option.bind_fun_some _).symm
  | cons e es ih =>
    rw [mem_handOuts_cons, not_or] at hi
    have hstep := h.get?_step (fun change he => hm change (he ▸ List.mem_cons_self)) hi.1
    have hes : ∀ change, Event.modify i change ∉ es :=
      fun change hmem => hm change (List.mem_cons_of_mem _ hmem)
    -- one event in the pool is one event by itself, and the rest follows from the state it leads to
    rw [run_cons, ih (h.step e) hes hi.2, hstep, Option.bind_assoc]
    rfl

/-- As long as a particle lives by itself, its slot is not handed out again. -/
theorem Sound.not_mem_handOuts (h : pool.Sound) (hm : ∀ change, Event.modify i change ∉ es)
    (hp : pool.get? i = some p) (hq : alone p es = some q) : i ∉ pool.handOuts es := by
  induction es generalizing pool p with
  | nil => exact List.not_mem_nil
  | cons e es ih =>
    rw [alone_cons, Option.bind_eq_some_iff] at hq
    obtain ⟨p', hp', hq⟩ := hq
    have hi := h.handed?_ne hp e
    have hstep := h.get?_step (fun change he => hm change (he ▸ List.mem_cons_self)) hi
    rw [hp, Option.bind_some, hp'] at hstep
    rw [mem_handOuts_cons, not_or]
    exact ⟨hi, ih (h.step e) (fun change hmem => hm change (List.mem_cons_of_mem _ hmem)) hstep hq⟩

/-- Every update counts the slots it took particles from. From a launch on, whatever happened before
and whatever happens to the other slots: while the launched particle, a newborn one with what it is
launched with written into it and then activated, lives by itself through the updates and the pool
is not cleared, the slot holds it and is not handed out again; the update that ends its life takes
it out of its slot; and then the slot stays empty until it is handed out again. A curve that is read
at what is not a number counts as zero here. -/
theorem spawn_alone (h : Reachable capacity pool) :
    (∀ dt, (pool.update dt).1 = (lost pool (pool.update dt).2).length) ∧
    ∀ l art path i pool', pool.spawn l art path = (some i, pool') →
      let p : PathParticle α :=
        { PathParticle.unborn with
          base := { Particle.unborn with
            position := l.position
            velocity := l.velocity
            acceleration := l.acceleration
            maxSpeed := l.maxSpeed
            rotation := l.rotation
            rotationSpeed := l.rotationSpeed
            maxLife := l.maxLife
            speedCurve := l.speedCurve
            speedMultiplier := l.speedMultiplier } }
      ∀ later, (∀ change, Event.modify i change ∉ later) →
      (∀ q, Event.clear ∉ later → (p.activate art path).after? (deltas later) = some q →
        (pool'.run later).get? i = some q ∧ i ∉ pool'.handOuts later ∧
        ∀ dt, q.next? dt = none → ((pool'.run later).update dt).2.get? i = none) ∧
      (Event.clear ∈ later ∨ (p.activate art path).after? (deltas later) = none →
        i ∉ pool'.handOuts later → (pool'.run later).get? i = none) := by
  refine ⟨fun dt => sweep_count (retires_stepSlot dt) pool, ?_⟩
  intro l art path i pool' hs p later hm
  have hlaunch : PathParticle.unborn.launch l art path = p.activate art path := rfl
  have hsound := h.sound.spawn hs
  have hnew : pool'.get? i = some (p.activate art path) :=
    get?_eq_some.mpr ⟨hlaunch ▸ (h.sound.slots_spawn hs).1, rfl⟩
  refine ⟨?_, ?_⟩
  · intro q hc hq
    have halone := alone_eq_some.mpr ⟨hc, hq⟩
    have hi := hsound.not_mem_handOuts hm hnew halone
    have hget := hsound.get?_run hm hi
    rw [hnew, Option.bind_some, halone] at hget
    refine ⟨hget, hi, ?_⟩
    intro dt hn
    rw [get?_update, hget, Option.bind_some, hn]
  · intro hd hi
    rw [hsound.get?_run hm hi, hnew, Option.bind_some]
    exact alone_eq_none.mpr hd

/-- The one slot of a pool was used before, by a particle with other art and another path, and was
cleared. The particle launched in it now turns, has frames that last as long as it lives, and is on
its way along a path at a speed of five: half a second later it shows its second frame, and another
second later its life of one second is over. -/
theorem spawn_alone_reused :
    let before : Art Float32 := ⟨[⟨3, "c"⟩], 10, 0.1, true⟩
    let art : Art Float32 := ⟨[⟨1, "a"⟩, ⟨2, "b"⟩], -1, 0, false⟩
    let path : Path := ⟨.binary .mul .var .var, "x*x"⟩
    let l : Launch Float32 :=
      { position := ⟨1, 2⟩
        velocity := ⟨3, 4⟩
        acceleration := ⟨5, 6⟩
        maxSpeed := 7
        rotation := 8
        rotationSpeed := 9
        maxLife := 1
        speedCurve := some (.constant 10)
        speedMultiplier := 0.5 }
    let pool : Pool Float32 :=
      (empty 1).run [.spawn .default (some before) (some ⟨.var, "x"⟩), .update 0.25, .clear]
    ∃ pool' q, pool.spawn l (some art) (some path) = (some 0, pool') ∧
      (pool'.run [.update 0.5]).get? 0 = some q ∧
      (q.base.velocity, q.base.acceleration, q.base.maxSpeed) = (⟨3, 4⟩, ⟨5, 6⟩, 7) ∧
      (q.base.age, q.base.rotation, q.initialRotation) = (0.5, 12.5, 8) ∧
      (q.initialPosition, q.movement) = (⟨1, 2⟩, 2.5) ∧ q.base.animation.texture = ⟨2, "b"⟩ ∧
      (pool'.run [.update 0.5, .update 1]).get? 0 = none := by
  intro before art path l pool
  have hpool : Reachable 1 pool := ⟨_, rfl⟩
  let launched : PathParticle Float32 := PathParticle.unborn.launch l (some art) (some path)
  have hnext : launched.next? 0.5 = some (launched.update 0.5).2 :=
    PathParticle.next?_eq_some_iff.mpr ⟨by decide, rfl⟩
  have hlives : launched.after? [0.5] = some (launched.update 0.5).2 := by
    rw [PathParticle.after?, List.foldlM_cons, hnext]
    rfl
  have hends : (launched.after? [0.5, 1]).isNone = true := by decide
  have hslot : (pool.spawn l (some art) (some path)).1 = some 0 := by decide
  obtain ⟨-, hspawn⟩ := spawn_alone hpool
  have hs : pool.spawn l (some art) (some path) = (some 0, _) := Prod.ext hslot rfl
  refine ⟨_, (launched.update 0.5).2, hs, ?_, by decide, by decide, by decide, by decide, ?_⟩
  · obtain ⟨hstays, -⟩ := hspawn l (some art) (some path) 0 _ hs [.update 0.5] (by simp)
    exact (hstays _ (by simp) hlives).1
  · obtain ⟨-, hgone⟩ := hspawn l (some art) (some path) 0 _ hs [.update 0.5, .update 1] (by simp)
    exact hgone (.inr (Option.isNone_iff_eq_none.mp hends)) List.not_mem_nil

end Pool

end SparkTrail
