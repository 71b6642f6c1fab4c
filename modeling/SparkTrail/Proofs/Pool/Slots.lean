import Mathlib.Data.List.Nodup
import SparkTrail.Pool
import SparkTrail.Proofs.Particle.Life

/-!
# What the operations of a pool do to its slots

One lemma for each operation says what is in every slot afterwards, and which slots are free. An
update and a clearing are both a sweep: the same step in every slot, which retires a slot exactly
where it ends a life and leaves a particle that is not alive as it is.
-/
namespace SparkTrail

namespace Pool

section Slots

variable {α : Type} {pool pool' : Pool α} {p : PathParticle α} {i : Nat}
  {f : PathParticle α → Bool × PathParticle α}

theorem get?_eq_some : pool.get? i = some p ↔ pool.slots[i]? = some p ∧ p.isActive = true := by
  rw [get?, Option.filter_eq_some_iff]

theorem get?_eq_none :
    pool.get? i = none ↔ ∀ p, pool.slots[i]? = some p → p.isActive = false := by
  rw [get?, Option.filter_eq_none_iff]
  simp only [Bool.not_eq_true]

theorem get?_congr (h : pool'.slots[i]? = pool.slots[i]?) : pool'.get? i = pool.get? i := by
  rw [get?, get?, h]

/-- Slots selected by what is in them are different slots. -/
theorem nodup_selected {β : Type} (l : List β) (f : β × Nat → Bool) :
    ((l.zipIdx.filter f).map (·.2)).Nodup := by
  refine List.Nodup.sublist (List.Sublist.map _ List.filter_sublist) ?_
  rw [List.zipIdx_map_snd]
  exact List.nodup_range'

/-- A step for every slot that retires the lives it ends, and nothing else, and leaves alone what
does not live. -/
structure Retires (f : PathParticle α → Bool × PathParticle α) : Prop where
  ended : ∀ p, (f p).1 = true ↔ p.isActive = true ∧ (f p).2.isActive = false
  idle : ∀ p, p.isActive = false → (f p).2 = p

def ended (f : PathParticle α → Bool × PathParticle α) (pool : Pool α) : List Nat :=
  ((pool.slots.map f).zipIdx.filter fun (r, _) => r.1).map fun (_, slot) => slot

/-- One pass steps every slot and puts those in which a life ended in front of the free ones, the
last one first. -/
theorem sweep_eq (f : PathParticle α → Bool × PathParticle α) (pool : Pool α) :
    pool.sweep f = ((pool.ended f).length,
      { pool with
        slots := pool.slots.map fun p => (f p).2
        free := (pool.ended f).reverse ++ pool.free }) := by
  rw [sweep, List.map_map]
  rfl

theorem get?_sweep (f : PathParticle α → Bool × PathParticle α) (pool : Pool α) (i : Nat) :
    (pool.sweep f).2.get? i
      = (pool.slots[i]?.map fun p => (f p).2).filter (·.isActive) := by
  rw [sweep_eq, get?, List.getElem?_map]

theorem mem_ended : i ∈ pool.ended f ↔ ∃ p, pool.slots[i]? = some p ∧ (f p).1 = true := by
  simp only [ended, List.mem_map, List.mem_filter, List.mem_zipIdx_iff_getElem?, Prod.exists,
    exists_eq_right, List.getElem?_map, Option.map_eq_some_iff]
  constructor
  · rintro ⟨r, q, ⟨p, hp, hfp⟩, hr⟩
    exact ⟨p, hp, by rw [hfp]; exact hr⟩
  · rintro ⟨p, hp, hr⟩
    exact ⟨(f p).1, (f p).2, ⟨p, hp, rfl⟩, hr⟩

theorem nodup_ended : (pool.ended f).Nodup :=
  nodup_selected _ _

/-- The slots in use before and not in use after. -/
def lost (pool pool' : Pool α) : List Nat :=
  (List.range pool.slots.length).filter fun i => (pool.get? i).isSome && (pool'.get? i).isNone

theorem mem_lost : i ∈ lost pool pool' ↔ pool.get? i ≠ none ∧ pool'.get? i = none := by
  rw [lost, List.mem_filter, List.mem_range, Bool.and_eq_true, Option.isSome_iff_ne_none,
    Option.isNone_iff_eq_none]
  refine ⟨fun h => h.2, fun h => ⟨?_, h⟩⟩
  by_contra hlt
  have hnone : pool.slots[i]? = none := List.getElem?_eq_none (Nat.le_of_not_lt hlt)
  exact h.1 (get?_eq_none.mpr (by simp [hnone]))

/-- A sweep counts the slots that were in use before it and are not after it. -/
theorem sweep_count (hf : Retires f) (pool : Pool α) :
    (pool.sweep f).1 = (lost pool (pool.sweep f).2).length := by
  have hnodup : (lost pool (pool.sweep f).2).Nodup := List.nodup_range.filter _
  have hperm : (pool.ended f).Perm (lost pool (pool.sweep f).2) := by
    refine (List.perm_ext_iff_of_nodup nodup_ended hnodup).mpr fun i => ?_
    rw [mem_ended, mem_lost, get?_sweep, get?]
    cases pool.slots[i]? with
    | none => simp
    | some p => simp [Option.filter_some, hf.ended]
  rw [← hperm.length_eq, sweep_eq]

end Slots

end Pool

variable {α : Type} [Scalar α]

theorem Launch.activate_apply (l : Launch α) (art : Option (Art α)) (b c : Particle α) :
    (l.apply b).activate art = (l.apply c).activate art := by
  cases art with
  | none => rfl
  | some art =>
    show ({ l.apply c with
      age := 0, motion := .free, phase := .active,
      animation := (b.animation.play art).restart l.maxLife } : Particle α) = _
    rw [Animation.restart_play _ c.animation]
    rfl

namespace PathParticle

/-- Launching writes every field, so nothing is left of what the particle was before. -/
theorem launch_eq_unborn (p : PathParticle α) (l : Launch α) (art : Option (Art α))
    (path : Option Path) : p.launch l art path = unborn.launch l art path := by
  have hb := l.activate_apply art p.base unborn.base
  simp only [launch, activate, hb]

theorem isActive_launch (p : PathParticle α) (l : Launch α) (art : Option (Art α))
    (path : Option Path) : (p.launch l art path).isActive = true := rfl

end PathParticle

namespace Pool

variable {pool pool' : Pool α} {p q : PathParticle α} {o : Option Nat} {i : Nat} {l : Launch α}
  {art : Option (Art α)} {path : Option Path}

theorem stepSlot_idle (dt : α) (h : p.isActive = false) : stepSlot dt p = (false, p) := by
  rw [stepSlot, if_neg (by rw [h]; decide)]

theorem stepSlot_some {dt : α} (h : p.isActive = true) (hn : p.next? dt = some q) :
    stepSlot dt p = (false, q) ∧ q.isActive = true := by
  rw [stepSlot, if_pos h]
  cases hu : p.update dt with
  | mk progress? q' =>
    simp only [PathParticle.next?, hu] at hn
    cases progress? with
    | none => cases hn
    | some progress =>
      cases hn
      exact ⟨rfl, (PathParticle.isActive_of_update hu).trans h⟩

/-- A step that ends a life says so and leaves nothing living in the slot. -/
theorem stepSlot_none {dt : α} (h : p.isActive = true) (hn : p.next? dt = none) :
    (stepSlot dt p).1 = true ∧ (stepSlot dt p).2.isActive = false := by
  rw [stepSlot, if_pos h]
  cases hu : p.update dt with
  | mk progress? q' =>
    simp only [PathParticle.next?, hu] at hn
    cases progress? with
    | none => exact ⟨rfl, PathParticle.isActive_destroy⟩
    | some progress => cases hn

/-- An update retires the lives it ends, and only these. -/
theorem retires_stepSlot (dt : α) : Retires (stepSlot dt) := by
  constructor
  · intro p
    cases hp : p.isActive with
    | false => simp [stepSlot_idle dt hp]
    | true =>
      cases hn : p.next? dt with
      | none =>
        obtain ⟨h1, h2⟩ := stepSlot_none hp hn
        simp [h1, h2]
      | some q =>
        obtain ⟨heq, hq⟩ := stepSlot_some hp hn
        simp [heq, hq]
  · intro p hp
    rw [stepSlot_idle dt hp]

theorem retires_clearSlot : Retires (clearSlot : PathParticle α → Bool × PathParticle α) := by
  constructor
  · intro p
    cases hp : p.isActive with
    | false => simp [clearSlot, hp]
    | true => simp [clearSlot, hp, PathParticle.isActive_destroy]
  · intro p hp
    rw [clearSlot, if_neg (by rw [hp]; decide)]

/-- The next free slot is used, else a new one, else there is no room. -/
theorem spawn_cases (h : pool.spawn l art path = (o, pool')) :
    (∃ slot free, pool.free = slot :: free ∧ o = some slot ∧ pool' = { pool with
      slots := pool.slots.modify slot (·.launch l art path), free }) ∨
    (pool.free = [] ∧ pool.slots.length < pool.capacity ∧ o = some pool.slots.length ∧
      pool' = { pool with slots := pool.slots ++ [PathParticle.unborn.launch l art path] }) ∨
    (pool.free = [] ∧ pool.capacity ≤ pool.slots.length ∧ o = none ∧ pool' = pool) := by
  rw [spawn] at h
  split at h
  case h_1 slot free hfree =>
    obtain ⟨rfl, rfl⟩ := Prod.mk.inj h
    exact .inl ⟨slot, free, hfree, rfl, rfl⟩
  case h_2 hfree =>
    by_cases hroom : pool.slots.length < pool.capacity
    · rw [if_pos hroom] at h
      obtain ⟨rfl, rfl⟩ := Prod.mk.inj h
      exact .inr (.inl ⟨hfree, hroom, rfl, rfl⟩)
    · rw [if_neg hroom] at h
      obtain ⟨rfl, rfl⟩ := Prod.mk.inj h
      exact .inr (.inr ⟨hfree, Nat.le_of_not_lt hroom, rfl, rfl⟩)

theorem eq_of_spawn_none (h : pool.spawn l art path = (none, pool')) : pool' = pool := by
  rcases spawn_cases h with ⟨_, _, -, ho, -⟩ | ⟨-, -, ho, -⟩ | ⟨-, -, -, heq⟩
  · cases ho
  · cases ho
  · exact heq

end Pool

end SparkTrail
