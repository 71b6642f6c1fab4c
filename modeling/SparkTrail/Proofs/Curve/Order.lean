import SparkTrail.Proofs.Scalar.Order
import SparkTrail.Curve.Basic

/-!
# Curves in order

A time divides a curve in order into the keyframes up to it and those after it, wherever they stand:
that a keyframe is among the first ones is the same as that it is not later than the time. So the
place where the curve is divided does not have to be looked for from its start; halving what is left
finds it as well.
-/
namespace SparkTrail.Curve

open Scalar

variable {α : Type} [Scalar α] {c : Curve α} {k : Keyframe α} {t : α} {j : ℕ}

/-- The keyframes are in order of time, and every time is a number. -/
structure InOrder (c : Curve α) : Prop where
  sorted : c.keyframes.Pairwise fun k l => k.time ≤ l.time
  isNumber : ∀ k ∈ c.keyframes, IsNumber k.time

theorem upTo_append_after (c : Curve α) (t : α) : c.upTo t ++ c.after t = c.keyframes :=
  List.takeWhile_append_dropWhile

theorem time_le_of_mem_upTo (h : k ∈ c.upTo t) : k.time ≤ t := by
  have htime := List.mem_takeWhile_imp h
  exact of_decide_eq_true htime

theorem not_time_le_of_after_cons {rest : List (Keyframe α)} (h : c.after t = k :: rest) :
    ¬ k.time ≤ t := by
  have hhead := List.head?_dropWhile_not (fun k : Keyframe α => decide (k.time ≤ t)) c.keyframes
  rw [after] at h
  rw [h] at hhead
  exact of_decide_eq_false hhead

theorem after_sublist (c : Curve α) (t : α) : (c.after t).Sublist c.keyframes :=
  List.dropWhile_sublist _

section Ordered

variable [Ordered α]

/-- In a curve in order, all keyframes behind the first later one are later too. -/
theorem InOrder.lt_of_mem_after (h : c.InOrder) (ht : IsNumber t) (hk : k ∈ c.after t) :
    t < k.time := by
  obtain ⟨first, rest, hafter⟩ := List.exists_cons_of_ne_nil (List.ne_nil_of_mem hk)
  have hsub : (first :: rest).Sublist c.keyframes := hafter ▸ c.after_sublist t
  have hfirst : t < first.time :=
    Ordered.lt_of_not_le (h.isNumber first (hsub.subset List.mem_cons_self)) ht
      (not_time_le_of_after_cons hafter)
  rw [hafter] at hk
  rcases List.mem_cons.mp hk with rfl | hk
  · exact hfirst
  · exact Ordered.lt_of_lt_of_le hfirst (List.rel_of_pairwise_cons (h.sorted.sublist hsub) hk)

/-- The keyframes up to a time are those that are not later. -/
theorem InOrder.time_le_iff (h : c.InOrder) (ht : IsNumber t) (hk : c.keyframes[j]? = some k) :
    k.time ≤ t ↔ j < (c.upTo t).length := by
  rw [← upTo_append_after c t] at hk
  constructor
  · intro hle
    by_contra hj
    rw [List.getElem?_append_right (not_lt.mp hj)] at hk
    exact Ordered.not_le_of_lt (h.lt_of_mem_after ht (List.mem_of_getElem? hk)) hle
  · intro hj
    rw [List.getElem?_append_left hj] at hk
    exact time_le_of_mem_upTo (List.mem_of_getElem? hk)

end Ordered

/-! ## Halving -/

/-- The first place from `low` up to `high` that is not `before`, if those that are come first. -/
def bisect (before : ℕ → Bool) (low high : ℕ) : ℕ :=
  if low < high then
    if before ((low + high) / 2) then bisect before ((low + high) / 2 + 1) high
    else bisect before low ((low + high) / 2)
  else low
  termination_by high - low

/-- Halving finds the place up to which `before` holds, wherever it is. -/
theorem bisect_eq {before : ℕ → Bool} {low high place : ℕ} (hlow : low ≤ place)
    (hhigh : place ≤ high) (h : ∀ j < high, before j = true ↔ j < place) :
    bisect before low high = place := by
  -- what is left always contains the place
  fun_induction bisect before low high with
  | case1 low high hlt hbefore ih =>
    have hmiddle := (h _ (by omega)).mp hbefore
    exact ih (by omega) hhigh h
  | case2 low high hlt hbefore ih =>
    have hmiddle := mt (h ((low + high) / 2) (by omega)).mpr hbefore
    exact ih hlow (by omega) fun j hj => h j (by omega)
  | case3 low high hlt => omega

/-- How many keyframes are not later than `t`, by halving. -/
def place (c : Curve α) (t : α) : ℕ :=
  bisect (fun j => c.keyframes[j]?.any (·.time ≤ t)) 0 c.keyframes.length

theorem InOrder.place_eq [Ordered α] (h : c.InOrder) (ht : IsNumber t) :
    c.place t = (c.upTo t).length := by
  refine bisect_eq (Nat.zero_le _) (List.takeWhile_sublist _).length_le fun j hj => ?_
  rw [List.getElem?_eq_getElem hj, Option.any_some, decide_eq_true_iff]
  exact h.time_le_iff ht (List.getElem?_eq_getElem hj)

end SparkTrail.Curve
