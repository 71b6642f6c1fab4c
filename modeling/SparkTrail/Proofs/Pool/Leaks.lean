import SparkTrail.Proofs.Pool.Alone
import SparkTrail.Proofs.Pool.Count

/-!
# Slots lost to changes from outside

A life that is ended through its slot from outside, and not by the pool, does not give the slot
back. From then on the slot is counted as in use although nothing lives in it, and no clearing
brings it back: the pool is smaller by one slot for good. Nothing else loses slots.
-/
namespace SparkTrail.Pool

section Event

variable {α : Type} {pool : Pool α} {e : Event α} {i : Nat}

/-- The slot that an event loses: one whose particle a change from outside leaves without life. -/
def leaks? (pool : Pool α) : Event α → Option Nat
  | .modify slot change =>
    if (pool.get? slot).any fun p => !(change p).isActive then some slot else none
  | _ => none

/-- Only a slot in use can be lost. -/
theorem get?_of_leaks? (h : pool.leaks? e = some i) : pool.get? i ≠ none := by
  cases e with
  | modify slot change =>
    rw [leaks?, Option.ite_none_right_eq_some] at h
    obtain ⟨hany, heq⟩ := h
    cases heq
    intro hnone
    rw [hnone] at hany
    cases hany
  | spawn l art path => cases h
  | update dt => cases h
  | clear => cases h

/-- A sweep gives back the slots whose lives it ends, so it loses none. -/
theorem mem_leaked_sweep {f : PathParticle α → Bool × PathParticle α} (hf : Retires f) :
    i ∈ (pool.sweep f).2.leaked ↔ i ∈ pool.leaked := by
  rw [mem_leaked, mem_leaked, get?_sweep, sweep_eq]
  simp only [List.length_map, List.mem_append, List.mem_reverse, mem_ended, get?]
  cases hp : pool.slots[i]? with
  | none => simp
  | some p =>
    cases hactive : p.isActive with
    | false =>
      have hend : ¬ (f p).1 = true := by simp [hf.ended, hactive]
      simp [hf.idle p hactive, hactive, hend]
    | true =>
      -- the particle lives on, or its slot is free now
      have hend : (f p).1 = true ↔ (f p).2.isActive = false := by simp [hf.ended, hactive]
      cases hafter : (f p).2.isActive with
      | false => simp [hend, hactive, hafter]
      | true => simp [hactive, hafter]

end Event

section Run

variable {α : Type} [Scalar α] {pool : Pool α} {e : Event α} {es es' : List (Event α)} {i : Nat}

def leaks (pool : Pool α) : List (Event α) → List Nat
  | [] => []
  | e :: es => (pool.leaks? e).toList ++ (pool.step e).leaks es

theorem leaks_append : pool.leaks (es ++ es') = pool.leaks es ++ (pool.run es).leaks es' := by
  induction es generalizing pool with
  | nil => rfl
  | cons e es ih => rw [List.cons_append, leaks, ih, ← List.append_assoc, ← leaks, run_cons]

theorem leaks_destroy {p : PathParticle α} (h : pool.get? i = some p) :
    pool.leaks [.modify i PathParticle.destroy] = [i] := by
  simp [leaks, leaks?, h, PathParticle.isActive_destroy]

/-- The slot that is handed out was free or new, so it was not leaked. -/
theorem Sound.mem_leaked_spawn (h : pool.Sound) (l : Launch α) (art : Option (Art α))
    (path : Option Path) : i ∈ (pool.spawn l art path).2.leaked ↔ i ∈ pool.leaked := by
  cases hs : pool.spawn l art path with
  | mk o pool' =>
    cases o with
    | none => rw [eq_of_spawn_none hs]
    | some slot =>
      obtain ⟨hnew, hothers⟩ := h.slots_spawn hs
      by_cases hi : i = slot
      · subst hi
        have hlive : pool'.get? i ≠ none := by
          rw [get?_eq_some.mpr ⟨hnew, PathParticle.isActive_launch _ _ _ _⟩]
          exact Option.some_ne_none _
        refine iff_of_false (not_mem_leaked hlive) ?_
        rw [mem_leaked]
        rcases spawn_cases hs with ⟨slot, free, hfree, ho, -⟩ | ⟨-, -, ho, -⟩ | ⟨-, -, ho, -⟩
        · cases ho
          simp [hfree]
        · cases ho
          simp
        · cases ho
      · refine mem_leaked_congr ?_ (hothers i hi) ?_
        · rcases spawn_cases hs with ⟨slot, free, hfree, ho, rfl⟩ | ⟨-, -, ho, rfl⟩ | ⟨-, -, ho, -⟩
          · rw [List.length_modify]
          · cases ho
            rw [List.length_append, List.length_singleton]
            omega
          · cases ho
        · rcases spawn_cases hs with ⟨slot, free, hfree, ho, rfl⟩ | ⟨-, -, ho, rfl⟩ | ⟨-, -, ho, -⟩
          · cases ho
            simp [hfree, hi]
          · rfl
          · cases ho

/-- A change loses its slot where it ends the life there. -/
theorem Sound.mem_leaked_modify (h : pool.Sound) (slot : Nat)
    (change : PathParticle α → PathParticle α) :
    i ∈ (pool.step (.modify slot change)).leaked
      ↔ pool.leaks? (.modify slot change) = some i ∨ i ∈ pool.leaked := by
  rw [Pool.step, Pool.modify?, leaks?]
  cases hp : pool.get? slot with
  | none => simp
  | some p =>
    have hslot := (get?_eq_some.mp hp).1
    by_cases hi : slot = i
    · subst hi
      have hbefore : slot ∉ pool.leaked := not_mem_leaked (by simp [hp])
      have hfree : slot ∉ pool.free := by
        intro hfree
        rw [h.get?_eq_none hfree] at hp
        cases hp
      have hlt := (List.getElem?_eq_some_iff.mp hslot).1
      simp [mem_leaked, hbefore, hfree, hlt, get?]
    · have hother : i ∈ ({ pool with slots := pool.slots.set slot (change p) } : Pool α).leaked
          ↔ i ∈ pool.leaked :=
        mem_leaked_congr (by simp) (List.getElem?_set_ne hi) Iff.rfl
      rw [Option.map_some, Option.getD_some, hother]
      simp [hi]

/-- What an event loses is added to what is leaked already. -/
theorem Sound.mem_leaked_step (h : pool.Sound) (e : Event α) :
    i ∈ (pool.step e).leaked ↔ pool.leaks? e = some i ∨ i ∈ pool.leaked := by
  cases e with
  | spawn l art path =>
    rw [Pool.step, h.mem_leaked_spawn]
    simp [leaks?]
  | update dt =>
    rw [Pool.step, Pool.update, mem_leaked_sweep (retires_stepSlot dt)]
    simp [leaks?]
  | clear =>
    rw [Pool.step, Pool.clear, mem_leaked_sweep retires_clearSlot]
    simp [leaks?]
  | modify slot change => exact h.mem_leaked_modify slot change

/-- An event adds the slot that it loses to the lost ones, and no event brings one back. -/
theorem Sound.leaked_step (h : pool.Sound) (e : Event α) :
    (pool.step e).leaked.Perm ((pool.leaks? e).toList ++ pool.leaked) := by
  have hnodup : ((pool.leaks? e).toList ++ pool.leaked).Nodup := by
    refine List.nodup_append.mpr ⟨?_, nodup_leaked pool, ?_⟩
    · cases pool.leaks? e <;> simp
    · rintro i hi j hj rfl
      exact not_mem_leaked (get?_of_leaks? (Option.mem_toList.mp hi)) hj
  refine (List.perm_ext_iff_of_nodup (nodup_leaked _) hnodup).mpr fun i => ?_
  rw [h.mem_leaked_step, List.mem_append, Option.mem_toList]

/-- The leaked slots are the ones that events lost. -/
theorem Sound.leaked_run (h : pool.Sound) (es : List (Event α)) :
    (pool.run es).leaked.Perm (pool.leaks es ++ pool.leaked) := by
  induction es generalizing pool with
  | nil => exact .refl _
  | cons e es ih =>
    have hstep : ((pool.step e).leaks es ++ (pool.step e).leaked).Perm
        ((pool.step e).leaks es ++ ((pool.leaks? e).toList ++ pool.leaked)) :=
      (h.leaked_step e).append_left _
    have hswap : ((pool.step e).leaks es ++ (pool.leaks? e).toList).Perm
        ((pool.leaks? e).toList ++ (pool.step e).leaks es) := List.perm_append_comm
    rw [← List.append_assoc] at hstep
    rw [run_cons, leaks]
    exact ((ih (h.step e)).trans hstep).trans (hswap.append_right pool.leaked)

/-- After any history: the count of slots in use is the number of living particles and of slots that
the history lost, where each direct destruction of a living particle loses its slot; clearing ends
all lives and brings no slot back, so that as many launches as the capacity find a slot, less the
lost ones. (An update that reads a curve at what is not a number finds zero there and goes on.) -/
theorem accounting (capacity : Nat) (es : List (Event α)) :
    let pool := (empty capacity).run es
    let lost := (empty capacity).leaks es
    pool.activeCount = pool.live.length + lost.length ∧
    pool.clear.live = [] ∧ pool.clear.activeCount = lost.length ∧
    (∀ launches : List (Launch α × Option (Art α) × Option Path),
      (pool.clear.handOuts (launches.map fun (l, art, path) => .spawn l art path)).length
        = min launches.length (capacity - lost.length)) ∧
    ∀ i p, pool.get? i = some p →
      (empty capacity).leaks (es ++ [.modify i PathParticle.destroy]) = lost ++ [i] := by
  intro pool lost
  have hpool : Reachable capacity pool := ⟨es, rfl⟩
  have hclear : Reachable capacity pool.clear := hpool.step .clear
  have hlost : pool.leaked.length = lost.length := by
    have hperm := (sound_empty capacity).leaked_run es
    rw [leaked_empty, List.append_nil] at hperm
    exact hperm.length_eq
  have hkept : pool.clear.leaked.length = pool.leaked.length :=
    (hpool.sound.leaked_step .clear).length_eq
  have hlive : pool.clear.live = [] := live_eq_nil (get?_clear pool)
  have hcount : pool.clear.activeCount = lost.length := by
    rw [hclear.sound.activeCount_eq, hlive, hkept, hlost]
    exact Nat.zero_add _
  refine ⟨?_, hlive, hcount, ?_, ?_⟩
  · rw [hpool.sound.activeCount_eq, hlost]
  · intro launches
    rw [length_handOuts_spawn, hclear.sound.room_eq, hclear.capacity_eq, hcount]
  · intro i p hp
    rw [leaks_append, leaks_destroy hp]

/-- The one slot of a pool, lost to a direct destruction: nothing lives, one slot is counted as in
use, and also after clearing no launch finds a slot. -/
theorem destroyed_slot_is_lost :
    let pool : Pool Float32 :=
      (empty 1).run [.spawn .default none none, .modify 0 PathParticle.destroy]
    pool.activeCount = 1 ∧ pool.live.length = 0 ∧ pool.clear.activeCount = 1 ∧
      (pool.clear.spawn .default none none).1 = none := by
  decide

/-- With two slots, one of them lost: the other is found after clearing, and then there is no
room. -/
theorem accounting_one_of_two :
    let events : List (Event Float32) := [.spawn .default none none, .spawn .default none none]
    let pool := (empty 2).run (events ++ [.modify 0 PathParticle.destroy])
    pool.activeCount = pool.live.length + 1 ∧ pool.clear.live = [] ∧
      (pool.clear.handOuts [.spawn .default none none, .spawn .default none none]).length = 1 := by
  intro events pool
  obtain ⟨p, hp⟩ : ∃ p, ((empty 2).run events).get? 0 = some p := ⟨_, rfl⟩
  obtain ⟨-, -, -, -, hlost⟩ := accounting 2 events
  obtain ⟨hcount, hlive, -, hroom, -⟩ := accounting 2 (events ++ [.modify 0 PathParticle.destroy])
  rw [hlost 0 p hp] at hcount hroom
  exact ⟨hcount, hlive, hroom [(.default, none, none), (.default, none, none)]⟩

end Run

end SparkTrail.Pool
