import SparkTrail.Proofs.Curve.Interpolation
import SparkTrail.Proofs.Curve.Sorting

/-!
# Reading a curve with every access checked

A program that looks a time up by halving reads the keyframes before and at the place it finds, and
both are there only if the time can be compared with the keyframes and these are in order. Here the
lookup stops where an access would not be allowed, and it never does so on a curve in order.
-/
namespace SparkTrail

open Scalar

/-- What an update must not come to. -/
inductive Hazard where
  /-- A curve is read at what is not a number. -/
  | notANumber
  /-- A keyframe is read that is not there. -/
  | noKeyframe
  /-- A slot is used that is not there. -/
  | noSlot
  /-- An age is divided by a lifetime that is not positive. -/
  | noLifetime
  deriving DecidableEq, Repr

namespace Curve

section Checked

variable {α : Type} [Scalar α] {c : Curve α} {t : α}

/-- The value between the keyframes before and at a place. -/
def checkedBetween (c : Curve α) (place : ℕ) (t : α) : Except Hazard α :=
  match place with
  | 0 => .error .noKeyframe
  | i + 1 =>
    match c.keyframes[i]?, c.keyframes[i + 1]? with
    | some earlier, some later => .ok (between c.interpolation earlier later t)
    | _, _ => .error .noKeyframe

/-- The value at `t`, looked up by halving. -/
def checkedSample (c : Curve α) (t : α) : Except Hazard α :=
  if IsNumber t then
    match c.keyframes.head?, c.keyframes.getLast? with
    | some first, some last =>
      if t ≤ first.time then .ok first.value
      else if last.time ≤ t then .ok last.value
      else c.checkedBetween (c.place t) t
    | _, _ => .ok 0
  else .error .notANumber

/-- A time that is a number can be looked up in every curve in order. -/
theorem InOrder.checkedSample_eq [Ordered α] (hc : c.InOrder) (ht : IsNumber t) :
    c.checkedSample t = .ok (c.sample t) := by
  rw [checkedSample, if_pos ht]
  cases hfirst : c.keyframes.head? with
  | none =>
    have hsample : c.sample? t = some 0 := by rw [sample?, hfirst]
    rw [sample_eq hsample]
  | some first =>
    cases hlast : c.keyframes.getLast? with
    | none =>
      have hsample : c.sample? t = some 0 := by rw [sample?, hfirst, hlast]
      rw [sample_eq hsample]
    | some last =>
      dsimp only
      by_cases h : t ≤ first.time
      · rw [if_pos h, sample_eq (sample?_first hfirst hlast h)]
      have hstart := Ordered.lt_of_not_le ht (hc.isNumber first (List.mem_of_mem_head? hfirst)) h
      rw [if_neg h]
      by_cases h' : last.time ≤ t
      · rw [if_pos h', sample_eq (sample?_last hfirst hlast hstart h')]
      have hend := Ordered.lt_of_not_le (hc.isNumber last (List.mem_of_mem_getLast? hlast)) ht h'
      obtain ⟨i, earlier, later, hn, hearlier, hlater⟩ :=
        hc.exists_neighbours hfirst hlast ht hstart hend
      rw [if_neg h', hn.place_eq, checkedBetween, hn.earlier_eq, hn.later_eq,
        sample_eq (sample?_between hfirst hlast hstart hend hearlier hlater)]

end Checked

/-- Made from an empty curve, a constant or a line by adding keyframes at times that are numbers. -/
def IsBuilt (c : Curve Float32) : Prop :=
  ∃ start made ks, Begins start made ∧ (∀ k ∈ ks, k.time.isNaN = false) ∧ c = start.addAll ks

theorem IsBuilt.inOrder {c : Curve Float32} (h : c.IsBuilt) : c.InOrder := by
  obtain ⟨start, made, ks, hstart, hks, rfl⟩ := h
  obtain ⟨interpolation, rfl⟩ := hstart.eq_addAll
  refine InOrder.addAll ?_ fun k hk => Single.isNumber_iff.mpr (hks k hk)
  exact (inOrder_empty interpolation).addAll hstart.isNumber

end Curve

end SparkTrail
