import Mathlib.Data.List.Induction
import Mathlib.Order.Bounds.Defs
import SparkTrail.Proofs.Pool.Leaks

/-!
# A pool is as large as it had to be

Without changes from outside a slot that holds no living particle is free, so a new slot is made
only where all slots are in use, and a launch fails only where as many particles live as there may
be. The number of slots is therefore the greatest number of particles that ever lived at the same
time.
-/
namespace SparkTrail.Pool

def Undisturbed {α : Type} (events : List (Event α)) : Prop :=
  ∀ slot change, Event.modify slot change ∉ events

section Sound

variable {α : Type} {pool : Pool α} {e : Event α} {es : List (Event α)} {i : Nat}

theorem Undisturbed.of_cons (h : Undisturbed (e :: es)) : Undisturbed es :=
  fun slot change hmem => h slot change (List.mem_cons_of_mem _ hmem)

theorem Undisturbed.of_concat (h : Undisturbed (es ++ [e])) : Undisturbed es :=
  fun slot change hmem => h slot change (List.mem_append_left _ hmem)

theorem Sound.length_live_le (h : pool.Sound) : pool.live.length ≤ pool.slots.length := by
  have hlength := h.length_eq
  omega

/-- As long as no slot is lost, the free slots are those in which nothing lives. -/
theorem Sound.mem_free_iff (h : pool.Sound) (hl : pool.leaked = []) (hi : i < pool.slots.length) :
    i ∈ pool.free ↔ pool.get? i = none := by
  constructor
  · exact h.get?_eq_none
  · intro hnone
    by_contra hfree
    have hmem : i ∈ pool.leaked := mem_leaked.mpr ⟨hi, hnone, hfree⟩
    rw [hl] at hmem
    exact List.not_mem_nil hmem

end Sound

variable {α : Type} [Scalar α] {pool : Pool α} {e : Event α} {es : List (Event α)} {capacity : Nat}

/-- Only a change from outside loses a slot. -/
theorem Undisturbed.leaks_eq_nil (h : Undisturbed es) : pool.leaks es = [] := by
  induction es generalizing pool with
  | nil => rfl
  | cons e es ih =>
    have hnone : pool.leaks? e = none := by
      cases e with
      | modify slot change => exact absurd List.mem_cons_self (h slot change)
      | spawn l art path => rfl
      | update dt => rfl
      | clear => rfl
    rw [leaks, hnone, ih h.of_cons]
    rfl

theorem Undisturbed.leaked_eq_nil (h : Undisturbed es) :
    ((empty capacity).run es).leaked = [] := by
  have hperm := (sound_empty capacity).leaked_run es
  rw [h.leaks_eq_nil, leaked_empty] at hperm
  exact hperm.eq_nil

/-- There are as many slots as before, or one more and none of them is free. -/
theorem length_slots_step (pool : Pool α) (e : Event α) :
    (pool.step e).slots.length = pool.slots.length ∨
      ((pool.step e).slots.length = pool.slots.length + 1 ∧ (pool.step e).free = []) := by
  cases e with
  | spawn l art path =>
    rw [Pool.step]
    rcases spawn_cases (Prod.eta (pool.spawn l art path)).symm with
      ⟨slot, free, -, -, hpool⟩ | ⟨hfree, -, -, hpool⟩ | ⟨-, -, -, hpool⟩
    · left
      rw [hpool, List.length_modify]
    · right
      rw [hpool]
      exact ⟨List.length_append, hfree⟩
    · left
      rw [hpool]
  | update dt =>
    left
    rw [Pool.step, Pool.update, sweep_eq, List.length_map]
  | clear =>
    left
    rw [Pool.step, Pool.clear, sweep_eq, List.length_map]
  | modify slot change =>
    left
    rw [Pool.step, Pool.modify?]
    cases pool.get? slot with
    | none => rfl
    | some p => exact List.length_set

theorem length_slots_le_run (pool : Pool α) (es : List (Event α)) :
    pool.slots.length ≤ (pool.run es).slots.length := by
  refine run_induction (P := fun later => pool.slots.length ≤ later.slots.length) (Nat.le_refl _) ?_
    es
  intro later e hle
  rcases length_slots_step later e with hsame | ⟨hmore, -⟩ <;> omega

/-- At some time all slots were in use. -/
theorem Undisturbed.exists_full (h : Undisturbed es) : ∃ front, front <+: es ∧
    ((empty capacity).run front).live.length = ((empty capacity).run es).slots.length := by
  induction es using List.reverseRecOn with
  | nil => exact ⟨[], List.nil_prefix, rfl⟩
  | append_singleton es e ih =>
    obtain ⟨front, hfront, hlive⟩ := ih h.of_concat
    rw [run_concat]
    rcases length_slots_step ((empty capacity).run es) e with hsame | ⟨-, hfree⟩
    · exact ⟨front, hfront.trans (List.prefix_append es [e]), by rw [hlive, hsame]⟩
    · -- the slot that was made now is used now, and so are all others
      refine ⟨es ++ [e], List.prefix_refl _, ?_⟩
      have hpool : Reachable capacity ((empty capacity).run (es ++ [e])) := ⟨_, rfl⟩
      have hlength := hpool.sound.length_eq
      rw [h.leaked_eq_nil, run_concat, hfree] at hlength
      rw [run_concat]
      exact hlength.symm

/-- A launch fails where there is no room, and nowhere else. -/
theorem spawn_eq_none_iff {l : Launch α} {art : Option (Art α)} {path : Option Path} :
    (pool.spawn l art path).1 = none ↔ pool.room = 0 := by
  rcases spawn_cases (Prod.eta (pool.spawn l art path)).symm with
    ⟨slot, free, hfree, ho, -⟩ | ⟨hfree, hroom, ho, -⟩ | ⟨hfree, hfull, ho, -⟩
  · simp [ho, room, hfree]
  · simp [ho, room, hfree]
    omega
  · simp [ho, room, hfree]
    omega

/-- After any launches, updates and clearings: every slot is in use or free and not both, the slots
are as many as ever were in use at the same time, and a launch finds no slot exactly while as many
particles live as there may be. (An update that reads a curve at what is not a number finds zero
there and goes on.) -/
theorem slots_isGreatest_live (capacity : Nat) (es : List (Event α)) (h : Undisturbed es) :
    let pool := (empty capacity).run es
    (∀ i < pool.slots.length, i ∈ pool.free ↔ pool.get? i = none) ∧
    IsGreatest {n | ∃ front, front <+: es ∧ ((empty capacity).run front).live.length = n}
      pool.slots.length ∧
    ∀ l art path, (pool.spawn l art path).1 = none ↔ pool.live.length = capacity := by
  intro pool
  have hpool : Reachable capacity pool := ⟨es, rfl⟩
  have hsound := hpool.sound
  have hleaked : pool.leaked = [] := h.leaked_eq_nil
  refine ⟨fun i hi => hsound.mem_free_iff hleaked hi, ⟨h.exists_full, ?_⟩, ?_⟩
  · rintro n ⟨front, ⟨back, rfl⟩, rfl⟩
    have hfront : Reachable capacity ((empty capacity : Pool α).run front) := ⟨front, rfl⟩
    have hmore := length_slots_le_run ((empty capacity).run front) back
    rw [← run_append] at hmore
    exact Nat.le_trans hfront.sound.length_live_le hmore
  · intro l art path
    have hbounded := hsound.bounded
    rw [hpool.capacity_eq] at hbounded
    have hlive := hsound.length_live_le
    have hcount := hsound.activeCount_eq
    rw [hleaked, List.length_nil, Nat.add_zero] at hcount
    rw [spawn_eq_none_iff, hsound.room_eq, hpool.capacity_eq, hcount]
    omega

/-- An update by a time that is not a number ends no life, so after two launches around it a third
one finds no slot. After a clearing there are still two slots, because two particles lived at
once. -/
theorem slots_isGreatest_live_two :
    let events : List (Event Float32) := [.spawn .default none none, .update (0 / 0),
      .spawn .default none none]
    let pool := (empty 2).run events
    Undisturbed events ∧ Undisturbed (events ++ [.clear]) ∧
      (pool.spawn .default none none).1 = none ∧ pool.live.length = 2 ∧
      IsGreatest {n | ∃ front, front <+: events ++ [.clear] ∧
        ((empty 2).run front).live.length = n} 2 := by
  intro events pool
  have hevents : Undisturbed events := by simp [Undisturbed, events]
  have hcleared : Undisturbed (events ++ [.clear]) := by simp [Undisturbed, events]
  obtain ⟨-, -, hfull⟩ := slots_isGreatest_live 2 events hevents
  obtain ⟨-, hpeak, -⟩ := slots_isGreatest_live 2 (events ++ [.clear]) hcleared
  have hlive : pool.live.length = 2 := by decide
  have hslots : ((empty 2).run (events ++ [.clear])).slots.length = 2 := by decide
  rw [hslots] at hpeak
  exact ⟨hevents, hcleared, (hfull .default none none).mpr hlive, hlive, hpeak⟩

end SparkTrail.Pool
