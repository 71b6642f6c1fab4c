import SparkTrail.Proofs.Expr.Allowed

/-!
# The filter drops as little as it can

What is left of a text is clean, and is the text without as many characters as were dropped. So the
texts that pass as they are are exactly the clean ones, and what has passed once passes again, even
though what is dropped brings together characters that stood apart.
-/
namespace SparkTrail.Expr

/-- Neither an allowed character nor a name starts a text with this character and what follows. -/
def IsJunk (c : Char) (cs : List Char) : Prop :=
  isAllowed c = false ∧ ∀ name ∈ names, ¬ name <+: c :: cs

theorem filter_junk {c : Char} {cs : List Char} (h : IsJunk c cs) :
    filter (c :: cs) = ⟨(filter cs).text, (filter cs).dropped + 1⟩ := by
  obtain ⟨hc, hnames⟩ := h
  have hnone : names.find? (·.isPrefixOf (c :: cs)) = none := by
    simpa [List.find?_eq_none] using hnames
  rw [filter, if_neg (by simp [hc]), hnone]

/-- What the scan meets at the start of a text. -/
theorem start_cases (cs : List Char) :
    cs = [] ∨ (∃ c rest, cs = c :: rest ∧ isAllowed c = true) ∨
      (∃ name ∈ names, ∃ rest, cs = name ++ rest) ∨ ∃ c rest, cs = c :: rest ∧ IsJunk c rest := by
  cases cs with
  | nil => exact .inl rfl
  | cons c cs =>
    cases hc : isAllowed c with
    | true => exact .inr (.inl ⟨c, cs, rfl, hc⟩)
    | false =>
      by_cases hname : ∃ name ∈ names, name <+: c :: cs
      · obtain ⟨name, hmem, rest, hrest⟩ := hname
        exact .inr (.inr (.inl ⟨name, hmem, rest, hrest.symm⟩))
      · exact .inr (.inr (.inr ⟨c, cs, rfl, hc, by simpa using hname⟩))

/-- Induction along the scan. -/
theorem scan_induction {P : List Char → Prop} (nil : P [])
    (char : ∀ c cs, isAllowed c = true → P cs → P (c :: cs))
    (name : ∀ name ∈ names, ∀ cs, P cs → P (name ++ cs))
    (junk : ∀ c cs, IsJunk c cs → P cs → P (c :: cs)) (cs : List Char) : P cs := by
  induction h : cs.length using Nat.strongRecOn generalizing cs with
  | ind n ih =>
    subst h
    rcases start_cases cs with rfl | ⟨c, rest, rfl, hc⟩ | ⟨found, hfound, rest, rfl⟩ |
      ⟨c, rest, rfl, hc⟩
    · exact nil
    · exact char c rest hc (ih rest.length (by simp) rest rfl)
    · -- a name is not empty, so the scan goes on with a shorter text
      obtain ⟨c, more, rfl, -⟩ := name_start hfound
      have hshorter : rest.length < (c :: more ++ rest).length := by
        rw [List.length_append, List.length_cons]
        omega
      exact name _ hfound rest (ih rest.length hshorter rest rfl)
    · exact junk c rest hc (ih rest.length (by simp) rest rfl)

/-- What the filter leaves is allowed, character by character and name by name. -/
theorem isClean_filter (cs : List Char) : IsClean (filter cs).text := by
  induction cs using scan_induction with
  | nil =>
    rw [filter]
    exact .nil
  | char c cs hc ih =>
    rw [filter_char hc]
    exact .char hc ih
  | name name hname cs ih =>
    rw [filter_name_append hname]
    exact .name hname ih
  | junk c cs hc ih =>
    rw [filter_junk hc]
    exact ih

/-- The filter takes characters out and moves none. -/
theorem filter_sublist (cs : List Char) : (filter cs).text.Sublist cs := by
  induction cs using scan_induction with
  | nil => simp [filter]
  | char c cs hc ih =>
    rw [filter_char hc]
    exact ih.cons_cons c
  | name name hname cs ih =>
    rw [filter_name_append hname]
    exact ih.append_left name
  | junk c cs hc ih =>
    rw [filter_junk hc]
    exact ih.cons c

/-- Each character is kept or counted as dropped. -/
theorem length_filter (cs : List Char) :
    cs.length = (filter cs).text.length + (filter cs).dropped := by
  induction cs using scan_induction with
  | nil => simp [filter]
  | char c cs hc ih =>
    simp only [filter_char hc, List.length_cons]
    omega
  | name name hname cs ih =>
    simp only [filter_name_append hname, List.length_append]
    omega
  | junk c cs hc ih =>
    simp only [filter_junk hc, List.length_cons]
    omega

theorem isClean_of_filter {cs : List Char} (h : filter cs = ⟨cs, 0⟩) : IsClean cs := by
  have hclean := isClean_filter cs
  rwa [h] at hclean

theorem filter_filter (cs : List Char) : filter (filter cs).text = ⟨(filter cs).text, 0⟩ :=
  filter_of_isClean (isClean_filter cs)

/-- What is left of a text is clean, and is the text without the dropped characters; the texts that
pass as they are are the clean ones, what has passed passes again, and a clean beginning does not
touch the scan of the rest. -/
theorem filter_exact (cs : List Char) :
    IsClean (filter cs).text ∧
    (filter cs).text.Sublist cs ∧
    cs.length = (filter cs).text.length + (filter cs).dropped ∧
    (filter cs = ⟨cs, 0⟩ ↔ IsClean cs) ∧
    filter (filter cs).text = ⟨(filter cs).text, 0⟩ ∧
    ∀ clean, IsClean clean →
      filter (clean ++ cs) = ⟨clean ++ (filter cs).text, (filter cs).dropped⟩ := by
  refine ⟨isClean_filter cs, filter_sublist cs, length_filter cs, ⟨isClean_of_filter, ?_⟩,
    filter_filter cs, ?_⟩
  · intro hclean
    exact filter_of_isClean hclean
  · intro clean hclean
    exact filter_append hclean cs

/-- Dropping the `h` of `sinh` and what is foreign leaves names that stood apart side by side. -/
theorem filter_exact_words :
    filter "sinhé atan2é2(E)".toList = ⟨"sin atan22(E)".toList, 3⟩ ∧
    filter "sin atan22(E)".toList = ⟨"sin atan22(E)".toList, 0⟩ ∧
    filter ("atan2".toList ++ "sinhé atan2é2(E)".toList)
      = ⟨"atan2".toList ++ "sin atan22(E)".toList, 3⟩ := by
  have hfilter : filter "sinhé atan2é2(E)".toList = ⟨"sin atan22(E)".toList, 3⟩ := by
    decide +kernel
  obtain ⟨-, -, -, -, hagain, happend⟩ := filter_exact "sinhé atan2é2(E)".toList
  have hname := happend "atan2".toList (isClean_name (by decide))
  rw [hfilter] at hagain hname
  exact ⟨hfilter, hagain, hname⟩

end SparkTrail.Expr
