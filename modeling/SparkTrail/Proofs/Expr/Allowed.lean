import SparkTrail.Expr.Allowed

/-!
# What is kept of a text

The clean texts are those put together from allowed characters and names. A clean beginning is kept
as it is, whatever stands behind it: the scan may cut it up in another way than it was put together,
because `atan2` is found as a shorter name and a digit, but it cuts at the same end.
-/
namespace SparkTrail.Expr

/-- Texts put together from allowed characters and names. -/
inductive IsClean : List Char → Prop
  | nil : IsClean []
  | char {c cs} : isAllowed c = true → IsClean cs → IsClean (c :: cs)
  | name {name cs} : name ∈ names → IsClean cs → IsClean (name ++ cs)

variable {a b cs name : List Char} {c : Char}

theorem IsClean.append (ha : IsClean a) (hb : IsClean b) : IsClean (a ++ b) := by
  induction ha with
  | nil => exact hb
  | char hc _ ih => exact .char hc ih
  | name hn _ ih =>
    rw [List.append_assoc]
    exact .name hn ih

theorem isClean_of_allowed (h : cs.all isAllowed = true) : IsClean cs := by
  induction cs with
  | nil => exact .nil
  | cons c cs ih =>
    obtain ⟨hc, hcs⟩ := Bool.and_eq_true_iff.mp h
    exact .char hc (ih hcs)

theorem isClean_name (h : name ∈ names) : IsClean name := by
  have hn := IsClean.name h .nil
  rwa [List.append_nil] at hn

theorem names_eq : names =
    ["pow".toList, "sqrt".toList, "abs".toList, "floor".toList, "round".toList, "ceil".toList,
      "E".toList, "PI".toList, "sin".toList, "cos".toList, "tan".toList, "asin".toList,
      "acos".toList, "atan".toList, "atan2".toList, "log".toList] := rfl

/-- No name starts with a character that may stand by itself. -/
theorem name_start (h : name ∈ names) : ∃ c cs, name = c :: cs ∧ isAllowed c = false := by
  have hall : ∀ n ∈ names, n.head?.any (isAllowed · == false) = true := by decide
  cases name with
  | nil => exact absurd (hall _ h) (by decide)
  | cons c cs => exact ⟨c, cs, rfl, by simpa using hall _ h⟩

/-- The first listed name that a name starts with is itself, but for an allowed end. -/
theorem find?_name (h : name ∈ names) (b : List Char) :
    ∃ found, names.find? (·.isPrefixOf (name ++ b)) = some found ∧
      ∃ more, name = found ++ more ∧ more.all isAllowed = true := by
  rw [names_eq] at h
  simp only [List.mem_cons, List.not_mem_nil, or_false] at h
  rcases h with rfl | rfl | rfl | rfl | rfl | rfl | rfl | rfl | rfl | rfl | rfl | rfl | rfl | rfl |
    rfl | rfl <;>
    first
    | exact ⟨_, rfl, [], (List.append_nil _).symm, rfl⟩
    -- only `atan2` is not found as itself
    | exact ⟨"atan".toList, rfl, ['2'], rfl, rfl⟩

theorem filter_char (h : isAllowed c = true) (cs : List Char) :
    filter (c :: cs) = ⟨c :: (filter cs).text, (filter cs).dropped⟩ := by
  rw [filter, if_pos h]

/-- Allowed characters in front are kept, and the rest is filtered as it would be alone. -/
theorem filter_allowed_append (h : a.all isAllowed = true) (b : List Char) :
    filter (a ++ b) = ⟨a ++ (filter b).text, (filter b).dropped⟩ := by
  induction a with
  | nil => rfl
  | cons c a ih =>
    obtain ⟨hc, ha⟩ := Bool.and_eq_true_iff.mp h
    rw [List.cons_append, filter_char hc, ih ha]
    rfl

/-- A name in front is kept as a whole, also where the scan takes a shorter name first. -/
theorem filter_name_append (h : name ∈ names) (b : List Char) :
    filter (name ++ b) = ⟨name ++ (filter b).text, (filter b).dropped⟩ := by
  obtain ⟨found, hfound, more, hname, hmore⟩ := find?_name h b
  obtain ⟨c, cs, hcs, hc⟩ := name_start h
  obtain ⟨d, ds, hds, -⟩ := name_start (List.mem_of_find?_eq_some hfound)
  have hdrop : (cs ++ b).drop (found.length - 1) = more ++ b := by
    have h1 : cs = ds ++ more := by
      have h2 := hcs.symm.trans hname
      rw [hds, List.cons_append] at h2
      exact (List.cons.inj h2).2
    rw [h1, hds, List.length_cons, Nat.add_sub_cancel, List.append_assoc, List.drop_left]
  rw [hcs, List.cons_append] at hfound ⊢
  -- the scan goes on behind what it found, and keeps the end of the name as allowed characters
  rw [filter, if_neg (by simp [hc]), hfound]
  simp only [hdrop, filter_allowed_append hmore]
  rw [← List.append_assoc, ← hname, hcs, List.cons_append]

/-- A clean text in front is kept, and the rest is filtered as it would be alone. -/
theorem filter_append (h : IsClean a) (b : List Char) :
    filter (a ++ b) = ⟨a ++ (filter b).text, (filter b).dropped⟩ := by
  induction h with
  | nil => rfl
  | char hc _ ih =>
    rw [List.cons_append, filter_char hc, ih]
    rfl
  | name hn _ ih =>
    rw [List.append_assoc, filter_name_append hn, ih, List.append_assoc]

/-- Nothing of a clean text is dropped. -/
theorem filter_of_isClean (h : IsClean a) : filter a = ⟨a, 0⟩ := by
  have hf := filter_append h []
  rw [List.append_nil, filter, List.append_nil] at hf
  exact hf

end SparkTrail.Expr
