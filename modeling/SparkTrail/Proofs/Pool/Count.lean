import SparkTrail.Proofs.Pool.Sound

/-!
# Counting slots

A slot holds a living particle, or is free, or is neither: then nothing uses it again. The count of
slots in use is taken from the free list, so it is the number of living particles only as long as
there are no slots of the third kind.
-/
namespace SparkTrail.Pool

variable {α : Type} {pool : Pool α} {i : Nat}

def inUse (pool : Pool α) : List Nat :=
  pool.live.map (·.1)

/-- The slots that hold no living particle and are not free either. -/
def leaked (pool : Pool α) : List Nat :=
  (List.range pool.slots.length).filter fun i => (pool.get? i).isNone && !pool.free.contains i

theorem inUse_eq (pool : Pool α) :
    pool.inUse = (pool.slots.zipIdx.filter fun (p, _) => p.isActive).map (·.2) := by
  rw [inUse, live, List.map_map]
  rfl

theorem mem_inUse : i ∈ pool.inUse ↔ pool.get? i ≠ none := by
  rw [inUse_eq, Option.ne_none_iff_exists']
  simp [List.mem_zipIdx_iff_getElem?, get?_eq_some]

theorem nodup_inUse (pool : Pool α) : pool.inUse.Nodup := by
  rw [inUse_eq]
  exact nodup_selected _ _

theorem mem_leaked :
    i ∈ pool.leaked ↔ i < pool.slots.length ∧ pool.get? i = none ∧ i ∉ pool.free := by
  simp [leaked]

theorem nodup_leaked (pool : Pool α) : pool.leaked.Nodup :=
  List.nodup_range.filter _

theorem leaked_empty (capacity : Nat) : (empty capacity : Pool α).leaked = [] := rfl

theorem not_mem_leaked (h : pool.get? i ≠ none) : i ∉ pool.leaked := by
  intro hi
  exact h (mem_leaked.mp hi).2.1

theorem mem_leaked_congr {pool' : Pool α} (hlength : i < pool'.slots.length ↔ i < pool.slots.length)
    (hslot : pool'.slots[i]? = pool.slots[i]?) (hfree : i ∈ pool'.free ↔ i ∈ pool.free) :
    i ∈ pool'.leaked ↔ i ∈ pool.leaked := by
  rw [mem_leaked, mem_leaked, hlength, get?_congr hslot, hfree]

theorem lt_length_of_get? (h : pool.get? i ≠ none) : i < pool.slots.length := by
  obtain ⟨p, hp⟩ := Option.ne_none_iff_exists'.mp h
  exact (List.getElem?_eq_some_iff.mp (get?_eq_some.mp hp).1).1

/-- Every slot is of exactly one of the three kinds. -/
theorem Sound.range_perm (h : pool.Sound) :
    (List.range pool.slots.length).Perm (pool.inUse ++ (pool.free ++ pool.leaked)) := by
  have hfree : (pool.free ++ pool.leaked).Nodup := by
    refine List.nodup_append.mpr ⟨h.nodup, nodup_leaked pool, ?_⟩
    rintro i hi j hj rfl
    exact (mem_leaked.mp hj).2.2 hi
  have hall : (pool.inUse ++ (pool.free ++ pool.leaked)).Nodup := by
    refine List.nodup_append.mpr ⟨nodup_inUse pool, hfree, ?_⟩
    rintro i hi j hj rfl
    have hlive := mem_inUse.mp hi
    rcases List.mem_append.mp hj with hj | hj
    · exact hlive (h.get?_eq_none hj)
    · exact not_mem_leaked hlive hj
  refine (List.perm_ext_iff_of_nodup List.nodup_range hall).mpr fun i => ?_
  rw [List.mem_range, List.mem_append, List.mem_append, mem_inUse, mem_leaked]
  constructor
  · intro hi
    by_cases hlive : pool.get? i = none
    · by_cases hmem : i ∈ pool.free
      · exact .inr (.inl hmem)
      · exact .inr (.inr ⟨hi, hlive, hmem⟩)
    · exact .inl hlive
  · rintro (hlive | hmem | hleaked)
    · exact lt_length_of_get? hlive
    · exact h.lt_length hmem
    · exact hleaked.1

theorem Sound.length_eq (h : pool.Sound) :
    pool.slots.length = pool.live.length + (pool.free.length + pool.leaked.length) := by
  have hlength := h.range_perm.length_eq
  rwa [List.length_range, List.length_append, List.length_append, inUse, List.length_map]
    at hlength

/-- The slots said to be in use are those of living particles and the leaked ones. -/
theorem Sound.activeCount_eq (h : pool.Sound) :
    pool.activeCount = pool.live.length + pool.leaked.length := by
  have hlength := h.length_eq
  rw [activeCount]
  omega

/-- How many launches will find a slot. -/
def room (pool : Pool α) : Nat :=
  pool.free.length + (pool.capacity - pool.slots.length)

theorem Sound.room_eq (h : pool.Sound) : pool.room = pool.capacity - pool.activeCount := by
  have hfree := h.free_le
  have hbounded := h.bounded
  rw [room, activeCount]
  omega

theorem live_eq_nil (h : ∀ i, pool.get? i = none) : pool.live = [] := by
  have hnil : pool.inUse = [] := by
    refine List.eq_nil_iff_forall_not_mem.mpr fun i hi => ?_
    exact mem_inUse.mp hi (h i)
  exact List.map_eq_nil_iff.mp hnil

/-- Launches find a slot as long as there is room, and each takes up one. -/
theorem length_handOuts_spawn [Scalar α]
    (launches : List (Launch α × Option (Art α) × Option Path)) :
    (pool.handOuts (launches.map fun (l, art, path) => .spawn l art path)).length
      = min launches.length pool.room := by
  induction launches generalizing pool with
  | nil => simp [handOuts]
  | cons launch launches ih =>
    obtain ⟨l, art, path⟩ := launch
    rw [List.map_cons, handOuts, List.length_append, ih]
    simp only [handed?, step, List.length_cons]
    rcases spawn_cases (Prod.eta (pool.spawn l art path)).symm with
      ⟨slot, free, hfree, ho, hpool⟩ | ⟨hfree, hroom, ho, hpool⟩ | ⟨hfree, hfull, ho, hpool⟩
    · rw [ho, hpool]
      simp [room, hfree]
      omega
    · rw [ho, hpool]
      simp [room, hfree]
      omega
    · rw [ho, hpool]
      simp [room, hfree]
      omega

end SparkTrail.Pool
