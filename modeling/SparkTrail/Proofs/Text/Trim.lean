import Mathlib.Data.List.DropRight
import SparkTrail.Text.Blank

/-!
# Trimming

What is left of a text has no blank at its ends, and there is nothing left only of a blank text.
-/
namespace SparkTrail.Text

variable {cs : List Char} {c : Char}

theorem trim_eq_rdropWhile (cs : List Char) :
    trim cs = (cs.dropWhile isBlank).rdropWhile isBlank := rfl

theorem trim_eq_nil_iff : trim cs = [] ↔ ∀ c ∈ cs, isBlank c = true := by
  rw [trim_eq_rdropWhile, List.rdropWhile_eq_nil_iff]
  constructor
  · intro h
    refine List.dropWhile_eq_nil_iff.mp ?_
    cases hd : cs.dropWhile isBlank with
    | nil => rfl
    | cons c rest =>
      have hfirst := List.head?_dropWhile_not isBlank cs
      rw [hd] at h hfirst
      exact absurd (h c List.mem_cons_self) (by simpa using hfirst)
  · intro h
    rw [List.dropWhile_eq_nil_iff.mpr h]
    intro c hc
    cases hc

theorem not_isBlank_of_head_trim (h : (trim cs).head? = some c) : isBlank c = false := by
  obtain ⟨more, hmore⟩ := List.head?_eq_some_iff.mp h
  obtain ⟨rest, hrest⟩ := List.rdropWhile_prefix isBlank (cs.dropWhile isBlank)
  have hfirst := List.head?_dropWhile_not isBlank cs
  rw [← hrest, ← trim_eq_rdropWhile, hmore] at hfirst
  exact hfirst

theorem not_isBlank_of_getLast_trim (h : (trim cs).getLast? = some c) : isBlank c = false := by
  have hlast := List.head?_dropWhile_not isBlank (cs.dropWhile isBlank).reverse
  rw [trim, List.getLast?_reverse] at h
  rwa [h] at hlast

end SparkTrail.Text
