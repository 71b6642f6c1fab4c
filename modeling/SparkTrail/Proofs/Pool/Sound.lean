import SparkTrail.Proofs.Pool.Run
import SparkTrail.Proofs.Pool.Slots
import SparkTrail.Scalar.Single

/-!
# The free list of a pool

No slot stands twice among the free ones, and nothing lives in a free slot, in every state that a
pool can come to, whatever is done to its particles from outside. A slot that is handed out was
therefore not in use, and two emitters never share one.
-/
namespace SparkTrail.Pool

/-- The free slots are different slots without a living particle, and the slots are not too many. -/
structure Sound {α : Type} (pool : Pool α) : Prop where
  nodup : pool.free.Nodup
  idle : ∀ i ∈ pool.free, ∃ p, pool.slots[i]? = some p ∧ p.isActive = false
  bounded : pool.slots.length ≤ pool.capacity

/-- The slot was not in use and now is, and all other slots are as they were. -/
structure HandsOut {α : Type} (pool : Pool α) (i : Nat) (pool' : Pool α) : Prop where
  before : pool.get? i = none
  after : ∃ p, pool'.get? i = some p
  others : ∀ j, j ≠ i → pool'.slots[j]? = pool.slots[j]?

variable {α : Type} {pool pool' : Pool α} {i : Nat}

theorem Sound.lt_length (h : pool.Sound) (hi : i ∈ pool.free) : i < pool.slots.length := by
  obtain ⟨p, hp, -⟩ := h.idle i hi
  exact (List.getElem?_eq_some_iff.mp hp).1

theorem Sound.get?_eq_none (h : pool.Sound) (hi : i ∈ pool.free) : pool.get? i = none := by
  obtain ⟨p, hp, hidle⟩ := h.idle i hi
  refine Pool.get?_eq_none.mpr fun q hq => ?_
  rw [hp] at hq
  cases hq
  exact hidle

/-- There are no more free slots than slots, so counting the others does not go below zero. -/
theorem Sound.free_le (h : pool.Sound) : pool.free.length ≤ pool.slots.length := by
  have hsub : pool.free ⊆ List.range pool.slots.length := by
    intro i hi
    exact List.mem_range.mpr (h.lt_length hi)
  have hle := h.nodup.length_le_of_subset hsub
  rwa [List.length_range] at hle

theorem sound_empty (capacity : Nat) : (empty capacity : Pool α).Sound := by
  refine ⟨List.nodup_nil, ?_, Nat.zero_le _⟩
  intro i hi
  cases hi

/-- A sweep gives back the slots whose lives it ends, none of which was free before. -/
theorem Sound.sweep {f : PathParticle α → Bool × PathParticle α} (hf : Retires f)
    (h : pool.Sound) : (pool.sweep f).2.Sound := by
  rw [sweep_eq]
  refine ⟨?_, ?_, ?_⟩
  · refine List.nodup_append.mpr ⟨List.nodup_reverse.mpr nodup_ended, h.nodup, ?_⟩
    -- a slot given back now was in use, and one that was free before was not
    rintro i hi j hj rfl
    obtain ⟨p, hp, hend⟩ := mem_ended.mp (List.mem_reverse.mp hi)
    obtain ⟨q, hq, hidle⟩ := h.idle i hj
    rw [hp] at hq
    cases hq
    rw [((hf.ended p).mp hend).1] at hidle
    cases hidle
  · intro i hi
    rw [List.getElem?_map]
    rcases List.mem_append.mp hi with hi | hi
    · obtain ⟨p, hp, hend⟩ := mem_ended.mp (List.mem_reverse.mp hi)
      exact ⟨(f p).2, by rw [hp]; rfl, ((hf.ended p).mp hend).2⟩
    · obtain ⟨p, hp, hidle⟩ := h.idle i hi
      refine ⟨(f p).2, by rw [hp]; rfl, ?_⟩
      rw [hf.idle p hidle]
      exact hidle
  · rw [List.length_map]
    exact h.bounded

/-- A change reaches only living particles, so it reaches no free slot. -/
theorem Sound.modify? (h : pool.Sound) (slot : Nat) (change : PathParticle α → PathParticle α) :
    ((pool.modify? slot change).getD pool).Sound := by
  rw [Pool.modify?]
  cases hp : pool.get? slot with
  | none => exact h
  | some p =>
    refine ⟨h.nodup, ?_, ?_⟩
    · intro i hi
      have hne : slot ≠ i := by
        rintro rfl
        rw [h.get?_eq_none hi] at hp
        cases hp
      obtain ⟨q, hq, hidle⟩ := h.idle i hi
      refine ⟨q, ?_, hidle⟩
      show (pool.slots.set slot (change p))[i]? = some q
      rw [List.getElem?_set_ne hne, hq]
    · show (pool.slots.set slot (change p)).length ≤ pool.capacity
      rw [List.length_set]
      exact h.bounded

section Spawn

variable [Scalar α] {o : Option Nat} {l : Launch α} {art : Option (Art α)} {path : Option Path}

/-- A launch uses the first free slot or a new one, so the free slots stay different and without
life. -/
theorem Sound.spawn (h : pool.Sound) (hs : pool.spawn l art path = (o, pool')) : pool'.Sound := by
  rcases spawn_cases hs with ⟨slot, free, hfree, -, rfl⟩ | ⟨hfree, hroom, -, rfl⟩ | ⟨-, -, -, rfl⟩
  · have hnodup := h.nodup
    rw [hfree] at hnodup
    obtain ⟨hslot, hnodup⟩ := List.nodup_cons.mp hnodup
    refine ⟨hnodup, ?_, ?_⟩
    · intro i hi
      have hne : slot ≠ i := by
        rintro rfl
        exact hslot hi
      obtain ⟨p, hp, hidle⟩ := h.idle i (hfree ▸ List.mem_cons_of_mem _ hi)
      exact ⟨p, by rw [List.getElem?_modify_ne _ _ hne, hp], hidle⟩
    · rw [List.length_modify]
      exact h.bounded
  · refine ⟨h.nodup, ?_, ?_⟩
    · intro i hi
      rw [hfree] at hi
      cases hi
    · rw [List.length_append, List.length_singleton]
      exact hroom
  · exact h

/-- The slot that is handed out holds the newborn particle, launched; what was there before does
not matter. -/
theorem Sound.slots_spawn (h : pool.Sound) (hs : pool.spawn l art path = (some i, pool')) :
    pool'.slots[i]? = some (PathParticle.unborn.launch l art path) ∧
      ∀ j, j ≠ i → pool'.slots[j]? = pool.slots[j]? := by
  rcases spawn_cases hs with ⟨slot, free, hfree, hi, rfl⟩ | ⟨-, -, hi, rfl⟩ | ⟨-, -, hi, -⟩
  · cases hi
    -- the slot exists, so what is launched in it is there afterwards
    obtain ⟨p, hp, -⟩ := h.idle i (hfree ▸ List.mem_cons_self)
    refine ⟨?_, ?_⟩
    · rw [List.getElem?_modify_eq, hp, ← p.launch_eq_unborn]
      rfl
    · intro j hj
      rw [List.getElem?_modify_ne _ _ hj.symm]
  · cases hi
    refine ⟨List.getElem?_concat_length, ?_⟩
    intro j hj
    rcases Nat.lt_or_gt_of_ne hj with hlt | hgt
    · exact List.getElem?_append_left hlt
    · rw [List.getElem?_eq_none (by simp; omega), List.getElem?_eq_none (by omega)]
  · cases hi

/-- A launch hands out a slot in which nothing lived, and touches no other. -/
theorem Sound.handsOut (h : pool.Sound) (hs : pool.spawn l art path = (some i, pool')) :
    HandsOut pool i pool' := by
  obtain ⟨hnew, hothers⟩ := h.slots_spawn hs
  refine ⟨?_, ?_, hothers⟩
  · rcases spawn_cases hs with ⟨slot, free, hfree, hi, -⟩ | ⟨-, -, hi, -⟩ | ⟨-, -, hi, -⟩
    · cases hi
      exact h.get?_eq_none (hfree ▸ List.mem_cons_self)
    · cases hi
      rw [get?, List.getElem?_eq_none (Nat.le_refl _)]
      rfl
    · cases hi
  · exact ⟨_, get?_eq_some.mpr ⟨hnew, PathParticle.isActive_launch _ _ _ _⟩⟩

end Spawn

section Run

variable [Scalar α] {capacity : Nat}

theorem Sound.step (h : pool.Sound) (e : Event α) : (pool.step e).Sound := by
  cases e with
  | spawn l art path => exact h.spawn (Prod.eta (pool.spawn l art path)).symm
  | update dt => exact h.sweep (retires_stepSlot dt)
  | clear => exact h.sweep retires_clearSlot
  | modify slot change => exact h.modify? slot change

theorem capacity_step (pool : Pool α) (e : Event α) : (pool.step e).capacity = pool.capacity := by
  cases e with
  | spawn l art path =>
    show (pool.spawn l art path).2.capacity = pool.capacity
    rw [spawn]
    split
    · rfl
    · split <;> rfl
  | update dt => rfl
  | clear => rfl
  | modify slot change =>
    show ((pool.modify? slot change).getD pool).capacity = pool.capacity
    rw [modify?]
    cases pool.get? slot <;> rfl

theorem Reachable.step (h : Reachable capacity pool) (e : Event α) :
    Reachable capacity (pool.step e) := by
  obtain ⟨es, rfl⟩ := h
  exact ⟨es ++ [e], run_concat⟩

theorem Reachable.run (h : Reachable capacity pool) (es : List (Event α)) :
    Reachable capacity (pool.run es) :=
  run_induction h (fun _ e h => h.step e) es

theorem Reachable.sound (h : Reachable capacity pool) : pool.Sound := by
  obtain ⟨es, rfl⟩ := h
  exact run_induction (sound_empty capacity) (fun _ e h => h.step e) es

theorem Reachable.capacity_eq (h : Reachable capacity pool) : pool.capacity = capacity := by
  obtain ⟨es, rfl⟩ := h
  exact run_induction (P := fun pool => pool.capacity = capacity) rfl
    (fun pool e h => (capacity_step pool e).trans h) es

/-- In every state the free list is sound, so the slots in use can be counted; a launch hands out a
slot that was not in use, and where it fails it changes nothing; between two launches in one slot
there is an event that ended its use. (An update that reads a curve at what is not a number finds
zero there and goes on.) -/
theorem free_slots_exclusive (h : Reachable capacity pool) :
    pool.Sound ∧ pool.capacity = capacity ∧
    pool.activeCount + pool.free.length = pool.slots.length ∧
    (∀ l art path i pool', pool.spawn l art path = (some i, pool') → HandsOut pool i pool') ∧
    (∀ l art path pool', pool.spawn l art path = (none, pool') → pool' = pool) ∧
    ∀ l art path i pool' later l' art' path', pool.spawn l art path = (some i, pool') →
      ((pool'.run later).spawn l' art' path').1 = some i →
      ∃ front e back, later = front ++ e :: back ∧ (pool'.run front).get? i ≠ none ∧
        ((pool'.run front).step e).get? i = none := by
  refine ⟨h.sound, h.capacity_eq, ?_, ?_, ?_, ?_⟩
  · have hle := h.sound.free_le
    rw [activeCount]
    omega
  · intro l art path i pool' hs
    exact h.sound.handsOut hs
  · intro l art path pool' hs
    exact eq_of_spawn_none hs
  · intro l art path i pool' later l' art' path' hs hs'
    obtain ⟨p, hp⟩ := (h.sound.handsOut hs).after
    have hlater : Reachable capacity (pool'.run later) := by
      have hnext := h.step (.spawn l art path)
      rw [Pool.step, hs] at hnext
      exact hnext.run later
    have hbefore := (hlater.sound.handsOut (Prod.ext hs' rfl)).before
    exact exists_end (by rw [hp]; exact Option.some_ne_none p) hbefore

/-- A pool with one slot, cleared between two launches: the slot is handed out again, and then there
is no room for a third. -/
theorem free_slots_exclusive_reuse :
    ∃ pool pool' : Pool Float32, ((empty 1).spawn .default none none) = (some 0, pool) ∧
      (pool.run [.clear]).spawn .default none none = (some 0, pool') ∧
      HandsOut (pool.run [.clear]) 0 pool' ∧
      (∃ front e back, [.clear] = front ++ e :: back ∧ (pool.run front).get? 0 ≠ none ∧
        ((pool.run front).step e).get? 0 = none) ∧
      (pool'.spawn .default none none).2 = pool' := by
  refine ⟨((empty 1).spawn .default none none).2,
    ((((empty 1).spawn .default none none).2.run [.clear]).spawn .default none none).2,
    rfl, rfl, ?_, ?_, ?_⟩
  · have hcleared : Reachable 1 (((empty 1 : Pool Float32).spawn .default none none).2.run
        [.clear]) := ⟨[.spawn .default none none, .clear], rfl⟩
    obtain ⟨-, -, -, hhands, -⟩ := free_slots_exclusive hcleared
    exact hhands .default none none 0 _ rfl
  · have hempty : Reachable 1 (empty 1 : Pool Float32) := ⟨[], rfl⟩
    obtain ⟨-, -, -, -, -, hreuse⟩ := free_slots_exclusive hempty
    exact hreuse .default none none 0 _ _ .default none none rfl rfl
  · have hfull : Reachable 1 ((((empty 1 : Pool Float32).spawn .default none none).2.run
        [.clear]).spawn .default none none).2 :=
      ⟨[.spawn .default none none, .clear, .spawn .default none none], rfl⟩
    obtain ⟨-, -, -, -, hsame, -⟩ := free_slots_exclusive hfull
    exact hsame .default none none _ rfl

end Run

end SparkTrail.Pool
