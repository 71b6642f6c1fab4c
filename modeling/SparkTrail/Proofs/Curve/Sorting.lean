import SparkTrail.Proofs.Curve.Order

/-!
# Curves built keyframe by keyframe

Adding keyframes one by one is a stable sort by time: an added keyframe goes behind those up to its
time, so the curve stays in order, and no two keyframes of one time change places. Both together
leave only one order for the keyframes.
-/
namespace SparkTrail.Curve

open Scalar

variable {α : Type} [Scalar α] {c : Curve α} {k l : Keyframe α} {ks ls made : List (Keyframe α)}
  {t : α}

def addAll (c : Curve α) (ks : List (Keyframe α)) : Curve α :=
  ks.foldl (fun c k => c.add k.time k.value) c

/-- The curves to start from, each with the keyframes that were added to make it. -/
inductive Begins : Curve α → List (Keyframe α) → Prop
  | empty (interpolation : Interpolation) : Begins (.empty interpolation) []
  | constant (value : α) : Begins (.constant value) [⟨0, value⟩]
  | line (first last : α) : Begins (.line first last) [⟨0, first⟩, ⟨1, last⟩]

/-- Keyframes in order of time, those of one time in the order they are given in. -/
def sortByTime (ks : List (Keyframe α)) : List (Keyframe α) :=
  ks.mergeSort fun k l => k.time ≤ l.time

theorem perm_sortByTime (ks : List (Keyframe α)) : (sortByTime ks).Perm ks :=
  List.mergeSort_perm ks _

theorem isNumber_sortByTime (hks : ∀ k ∈ ks, IsNumber k.time) :
    ∀ k ∈ sortByTime ks, IsNumber k.time :=
  fun k hk => hks k ((perm_sortByTime ks).mem_iff.mp hk)

/-- Whether a keyframe is neither before nor after a time. -/
def isAt (t : α) (k : Keyframe α) : Bool :=
  k.time ≤ t && t ≤ k.time

theorem isAt_iff : isAt t k = true ↔ k.time ≤ t ∧ t ≤ k.time := by
  rw [isAt, Bool.and_eq_true, decide_eq_true_iff, decide_eq_true_iff]

theorem isAt_time (h : IsNumber k.time) : isAt k.time k = true :=
  isAt_iff.mpr ⟨h, h⟩

theorem inOrder_empty (interpolation : Interpolation) : (empty interpolation : Curve α).InOrder :=
  ⟨.nil, nofun⟩

theorem addAll_append (c : Curve α) (ks ls : List (Keyframe α)) :
    c.addAll (ks ++ ls) = (c.addAll ks).addAll ls :=
  List.foldl_append

/-- Every curve to start from is made from an empty one. -/
theorem Begins.eq_addAll (h : Begins c made) :
    ∃ interpolation, c = (Curve.empty interpolation).addAll made := by
  cases h with
  | empty interpolation => exact ⟨interpolation, rfl⟩
  | constant value => exact ⟨.linear, rfl⟩
  | line first last => exact ⟨.linear, rfl⟩

/-- Sorting keyframes whose times are numbers is sorting by a total order. -/
theorem sortByTime_eq_map (hks : ∀ k ∈ ks, IsNumber k.time) :
    sortByTime ks = ((ks.attachWith (fun k => IsNumber k.time) hks).mergeSort
      fun k l => k.val.time ≤ l.val.time).map Subtype.val := by
  have hmap := List.map_mergeSort (f := Subtype.val)
    (s := fun k l : Keyframe α => decide (k.time ≤ l.time))
    (l := ks.attachWith (fun k => IsNumber k.time) hks) fun _ _ _ _ => rfl
  rw [List.attachWith_map_subtype_val] at hmap
  exact hmap.symm

theorem interpolation_addAll (c : Curve α) (ks : List (Keyframe α)) :
    (c.addAll ks).interpolation = c.interpolation := by
  induction ks generalizing c with
  | nil => rfl
  | cons k ks ih => exact ih (c.add k.time k.value)

theorem perm_add (c : Curve α) (k : Keyframe α) :
    (c.add k.time k.value).keyframes.Perm (c.keyframes ++ [k]) := by
  have hlast := (List.perm_append_singleton k (c.after k.time)).symm.append_left (c.upTo k.time)
  rw [← List.append_assoc, upTo_append_after] at hlast
  exact hlast

/-- Whatever their times are, no keyframe gets lost. -/
theorem perm_addAll (c : Curve α) (ks : List (Keyframe α)) :
    (c.addAll ks).keyframes.Perm (c.keyframes ++ ks) := by
  induction ks generalizing c with
  | nil =>
    rw [List.append_nil]
    rfl
  | cons k ks ih =>
    have hadd := (perm_add c k).append_right ks
    rw [List.append_assoc, List.singleton_append] at hadd
    exact (ih (c.add k.time k.value)).trans hadd

/-! ## The order leaves no choice -/

theorem exists_cons_of_filter (hk : IsNumber k.time)
    (h : (k :: ks).filter (isAt k.time) = ls.filter (isAt k.time)) :
    ∃ l more, ls = l :: more ∧ k ∈ ls := by
  have hmem : k ∈ ls.filter (isAt k.time) := by
    rw [← h, List.filter_cons_of_pos (isAt_time hk)]
    exact List.mem_cons_self
  have hmem := List.mem_of_mem_filter hmem
  obtain ⟨l, more, rfl⟩ := List.exists_cons_of_ne_nil (List.ne_nil_of_mem hmem)
  exact ⟨l, more, rfl, hmem⟩

theorem head_le (hls : (l :: ls).Pairwise fun k l => k.time ≤ l.time) (hl : IsNumber l.time)
    (h : k ∈ l :: ls) : l.time ≤ k.time := by
  rcases List.mem_cons.mp h with rfl | h
  · exact hl
  · exact List.rel_of_pairwise_cons hls h

/-- Keyframes in order are determined by those of each time. -/
theorem eq_of_filter_isAt (hks : ks.Pairwise fun k l => k.time ≤ l.time)
    (hls : ls.Pairwise fun k l => k.time ≤ l.time) (hks' : ∀ k ∈ ks, IsNumber k.time)
    (hls' : ∀ l ∈ ls, IsNumber l.time) (h : ∀ t, ks.filter (isAt t) = ls.filter (isAt t)) :
    ks = ls := by
  induction ks generalizing ls with
  | nil =>
    cases ls with
    | nil => rfl
    | cons l ls =>
      obtain ⟨_, _, hnil, -⟩ := exists_cons_of_filter (hls' l List.mem_cons_self) (h l.time).symm
      cases hnil
  | cons k ks ih =>
    have hk := hks' k List.mem_cons_self
    obtain ⟨l, more, rfl, hkmem⟩ := exists_cons_of_filter hk (h k.time)
    have hl := hls' l List.mem_cons_self
    obtain ⟨_, _, -, hlmem⟩ := exists_cons_of_filter hl (h l.time).symm
    -- each of the two first keyframes is in the other list, so neither is before the other
    have hat : isAt k.time l = true := isAt_iff.mpr ⟨head_le hls hl hkmem, head_le hks hk hlmem⟩
    have hboth := h k.time
    rw [List.filter_cons_of_pos (isAt_time hk), List.filter_cons_of_pos hat] at hboth
    obtain ⟨rfl, -⟩ := List.cons.inj hboth
    rw [ih (List.Pairwise.of_cons hks) (List.Pairwise.of_cons hls)
      (fun m hm => hks' m (List.mem_cons_of_mem k hm))
      (fun m hm => hls' m (List.mem_cons_of_mem k hm)) fun t => ?_]
    have ht := h t
    rw [List.filter_cons, List.filter_cons] at ht
    split at ht
    · exact (List.cons.inj ht).2
    · exact ht

section Ordered

variable [Ordered α]

/-! ## Adding is a stable sort -/

/-- A keyframe is added at the place that halving finds for it. -/
theorem InOrder.keyframes_add (h : c.InOrder) (hk : IsNumber k.time) :
    (c.add k.time k.value).keyframes = c.keyframes.insertIdx (c.place k.time) k := by
  have hsplit := List.modifyTailIdx_add (List.cons k) 0 (c.upTo k.time) (c.after k.time)
  rw [upTo_append_after] at hsplit
  rw [h.place_eq hk]
  exact hsplit.symm

/-- A keyframe is put where the order asks for it. -/
theorem InOrder.add (h : c.InOrder) (hk : IsNumber k.time) :
    (c.add k.time k.value).InOrder := by
  constructor
  · have hsorted := h.sorted
    rw [← upTo_append_after c k.time, List.pairwise_append] at hsorted
    obtain ⟨hup, hafter, hacross⟩ := hsorted
    refine List.pairwise_append.mpr ⟨hup, List.pairwise_cons.mpr ⟨?_, hafter⟩, ?_⟩
    · exact fun l hl => Ordered.le_of_lt (h.lt_of_mem_after hk hl)
    · intro l hl m hm
      rcases List.mem_cons.mp hm with rfl | hm
      · exact time_le_of_mem_upTo hl
      · exact hacross l hl m hm
  · intro l hl
    rcases List.mem_append.mp ((perm_add c k).mem_iff.mp hl) with hl | hl
    · exact h.isNumber l hl
    · rw [List.mem_singleton.mp hl]
      exact hk

/-- Among the keyframes of one time the added one is the last. -/
theorem InOrder.filter_add (h : c.InOrder) (hk : IsNumber k.time) (t : α) :
    (c.add k.time k.value).keyframes.filter (isAt t) = (c.keyframes ++ [k]).filter (isAt t) := by
  show (c.upTo k.time ++ k :: c.after k.time).filter (isAt t) = _
  rw [← upTo_append_after c k.time, List.append_assoc, List.filter_append, List.filter_append,
    List.filter_append]
  congr 1
  by_cases hat : isAt t k = true
  · -- what is behind the new keyframe is later than it is, and so not of its time
    have hafter : (c.after k.time).filter (isAt t) = [] := by
      refine List.filter_eq_nil_iff.mpr fun l hl hl' => ?_
      have hlater := Ordered.lt_of_le_of_lt (isAt_iff.mp hat).2 (h.lt_of_mem_after hk hl)
      exact Ordered.not_le_of_lt hlater (isAt_iff.mp hl').1
    rw [List.filter_cons_of_pos hat, List.filter_cons_of_pos hat, hafter]
    rfl
  · rw [List.filter_cons_of_neg hat, List.filter_cons_of_neg hat, List.filter_nil, List.append_nil]

theorem InOrder.addAll (h : c.InOrder) (hks : ∀ k ∈ ks, IsNumber k.time) :
    (c.addAll ks).InOrder := by
  induction ks generalizing c with
  | nil => exact h
  | cons k ks ih =>
    exact ih (h.add (hks k List.mem_cons_self)) fun l hl => hks l (List.mem_cons_of_mem k hl)

theorem InOrder.filter_addAll (h : c.InOrder) (hks : ∀ k ∈ ks, IsNumber k.time) (t : α) :
    (c.addAll ks).keyframes.filter (isAt t) = (c.keyframes ++ ks).filter (isAt t) := by
  induction ks generalizing c with
  | nil =>
    rw [List.append_nil]
    rfl
  | cons k ks ih =>
    have hk := hks k List.mem_cons_self
    have hmore := ih (h.add hk) fun l hl => hks l (List.mem_cons_of_mem k hl)
    rw [List.filter_append, h.filter_add hk, ← List.filter_append, List.append_assoc,
      List.singleton_append] at hmore
    exact hmore

/-! ## The library's sort -/

theorem decide_le_trans (a b c : { k : Keyframe α // IsNumber k.time })
    (hab : decide (a.val.time ≤ b.val.time) = true)
    (hbc : decide (b.val.time ≤ c.val.time) = true) :
    decide (a.val.time ≤ c.val.time) = true := by
  rw [decide_eq_true_iff] at hab hbc ⊢
  exact Ordered.le_trans hab hbc

theorem decide_le_total (a b : { k : Keyframe α // IsNumber k.time }) :
    (decide (a.val.time ≤ b.val.time) || decide (b.val.time ≤ a.val.time)) = true := by
  rw [Bool.or_eq_true, decide_eq_true_iff, decide_eq_true_iff]
  exact Ordered.le_total a.property b.property

theorem pairwise_sortByTime (hks : ∀ k ∈ ks, IsNumber k.time) :
    (sortByTime ks).Pairwise fun k l => k.time ≤ l.time := by
  rw [sortByTime_eq_map hks, List.pairwise_map]
  exact (List.pairwise_mergeSort decide_le_trans decide_le_total _).imp of_decide_eq_true

/-- Sorting leaves keyframes of one time in their order. -/
theorem filter_sortByTime (hks : ∀ k ∈ ks, IsNumber k.time) (t : α) :
    (sortByTime ks).filter (isAt t) = ks.filter (isAt t) := by
  let numbers := ks.attachWith (fun k => IsNumber k.time) hks
  have hnumbers : (numbers.filter fun k => isAt t k.val).map Subtype.val = ks.filter (isAt t) := by
    have hfilter := List.filter_map (p := isAt t) (f := Subtype.val) (l := numbers)
    rw [List.attachWith_map_subtype_val] at hfilter
    exact hfilter.symm
  have hat : (numbers.filter fun k => isAt t k.val).Pairwise fun k l =>
      decide (k.val.time ≤ l.val.time) = true := by
    refine List.pairwise_of_forall_mem_list fun k hk l hl => decide_eq_true ?_
    exact Ordered.le_trans (isAt_iff.mp (List.mem_filter.mp hk).2).1
      (isAt_iff.mp (List.mem_filter.mp hl).2).2
  have hsub : (ks.filter (isAt t)).Sublist (sortByTime ks) := by
    rw [sortByTime_eq_map hks, ← hnumbers]
    exact (List.sublist_mergeSort decide_le_trans decide_le_total hat List.filter_sublist).map _
  have hfilter := hsub.filter (isAt t)
  simp only [List.filter_filter, Bool.and_self] at hfilter
  have hlength := ((perm_sortByTime ks).filter (isAt t)).length_eq
  exact (hfilter.eq_of_length hlength.symm).symm

/-- Keyframes are left as they are if and only if they are in order already. -/
theorem sortByTime_eq_self_iff (hks : ∀ k ∈ ks, IsNumber k.time) :
    sortByTime ks = ks ↔ ks.Pairwise fun k l => k.time ≤ l.time := by
  constructor
  · intro heq
    rw [← heq]
    exact pairwise_sortByTime hks
  · intro hsorted
    exact eq_of_filter_isAt (pairwise_sortByTime hks) hsorted (isNumber_sortByTime hks) hks
      (filter_sortByTime hks)

/-- Keyframes added one by one end up as the library's stable sort leaves them. -/
theorem addAll_empty (interpolation : Interpolation) (hks : ∀ k ∈ ks, IsNumber k.time) :
    (empty interpolation).addAll ks = ⟨sortByTime ks, interpolation⟩ := by
  have hbuilt := (inOrder_empty interpolation).addAll hks
  have hkeyframes : ((empty interpolation).addAll ks).keyframes = sortByTime ks := by
    refine eq_of_filter_isAt hbuilt.sorted (pairwise_sortByTime hks) hbuilt.isNumber
      (isNumber_sortByTime hks) fun t => ?_
    rw [(inOrder_empty interpolation).filter_addAll hks, filter_sortByTime hks]
    rfl
  exact congrArg₂ mk hkeyframes (interpolation_addAll _ ks)

end Ordered

section Floats

variable {start : Curve Float32} {made ks : List (Keyframe Float32)}

theorem Begins.isNumber (h : Begins start made) : ∀ k ∈ made, IsNumber k.time := by
  have hzero : IsNumber (0 : Float32) := by decide
  have hone : IsNumber (1 : Float32) := by decide
  cases h with
  | empty interpolation => exact nofun
  | constant value => exact List.forall_mem_singleton.mpr hzero
  | line first last => exact List.forall_mem_cons.mpr ⟨hzero, List.forall_mem_singleton.mpr hone⟩

/-- Adding keyframes at any times that are numbers to an empty curve, a constant or a line sorts all
keyframes by time, in the one way in which those of one time stay in the order they were added. The
next keyframe goes where halving finds its place. -/
theorem addAll_sorts (hstart : Begins start made) (hks : ∀ k ∈ ks, k.time.isNaN = false) :
    let built := start.addAll ks
    built.keyframes = sortByTime (made ++ ks) ∧
    built.keyframes.Pairwise (fun k l => k.time ≤ l.time) ∧
    built.keyframes.Perm (made ++ ks) ∧
    (∀ t, built.keyframes.filter (isAt t) = (made ++ ks).filter (isAt t)) ∧
    ∀ k : Keyframe Float32, k.time.isNaN = false →
      (built.add k.time k.value).keyframes = built.keyframes.insertIdx (built.place k.time) k := by
  intro built
  have hall : ∀ k ∈ made ++ ks, IsNumber k.time := by
    refine List.forall_mem_append.mpr ⟨hstart.isNumber, fun k hk => ?_⟩
    exact Single.isNumber_iff.mpr (hks k hk)
  obtain ⟨interpolation, hempty⟩ := hstart.eq_addAll
  have hmade : built = (empty interpolation).addAll (made ++ ks) := by
    rw [addAll_append, ← hempty]
  have hbuilt : built.keyframes = sortByTime (made ++ ks) := by
    rw [hmade, addAll_empty interpolation hall]
  have horder : built.InOrder := by
    rw [hmade]
    exact (inOrder_empty interpolation).addAll hall
  refine ⟨hbuilt, horder.sorted, ?_, fun t => ?_, fun k hk => ?_⟩
  · rw [hmade]
    exact perm_addAll (empty interpolation) (made ++ ks)
  · rw [hbuilt]
    exact filter_sortByTime hall t
  · exact horder.keyframes_add (Single.isNumber_iff.mpr hk)

/-- Keyframes at both zeros, which are one time, stay behind the one that the line starts with. -/
theorem addAll_sorts_zeros :
    let made : List (Keyframe Float32) := [⟨0, 1⟩, ⟨1, 2⟩]
    let ks : List (Keyframe Float32) := [⟨0.5, 3⟩, ⟨-0, 4⟩, ⟨-1, 5⟩, ⟨0, 6⟩]
    let built := (line 1 2).addAll ks
    Begins (line 1 2) made ∧ (∀ k ∈ ks, k.time.isNaN = false) ∧
      built.keyframes = [⟨-1, 5⟩, ⟨0, 1⟩, ⟨-0, 4⟩, ⟨0, 6⟩, ⟨0.5, 3⟩, ⟨1, 2⟩] ∧
      built.keyframes.filter (isAt 0) = (made ++ ks).filter (isAt 0) ∧
      (built.add 0 7).keyframes = built.keyframes.insertIdx (built.place 0) ⟨0, 7⟩ := by
  intro made ks built
  have hstart : Begins (line 1 2) made := .line 1 2
  have hks : ∀ k ∈ ks, k.time.isNaN = false := by decide
  obtain ⟨-, -, -, hstable, hnext⟩ := addAll_sorts hstart hks
  exact ⟨hstart, hks, by decide, hstable 0, hnext ⟨0, 7⟩ (by decide)⟩

end Floats

end SparkTrail.Curve
