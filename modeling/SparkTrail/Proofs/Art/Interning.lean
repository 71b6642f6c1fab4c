import Mathlib.Data.List.Nodup
import SparkTrail.Texture

/-!
# Names in a library of textures

A library grows by the names that it is asked for and does not know. What it knew before keeps its
numbers, and the names that are new to it get the next numbers in the order in which they are first
mentioned; to ask for a name that it knows changes nothing.
-/
namespace SparkTrail.TextureLibrary

variable {library after later : TextureLibrary} {name : String} {names : List String} {t : Texture}

def internAll (library : TextureLibrary) (names : List String) : TextureLibrary :=
  names.foldl (fun library name => (library.intern name).2) library

/-- The names that are new to the library, each where it is mentioned first. -/
def unknown (library : TextureLibrary) (names : List String) : List String :=
  (names.filter fun name => (library.find? name).isNone).eraseDups

/-- What one library finds, the other one finds as well. -/
def Extends (library after : TextureLibrary) : Prop :=
  ∀ name t, library.find? name = some t → after.find? name = some t

theorem Extends.refl (library : TextureLibrary) : Extends library library :=
  fun _ _ h => h

theorem Extends.trans (h : Extends library after) (h' : Extends after later) :
    Extends library later :=
  fun name t ht => h' name t (h name t ht)

/-- Names put behind those of a library go on with its numbers. -/
theorem find?_append (library : TextureLibrary) (more : List String) (name : String) :
    (⟨library.names ++ more⟩ : TextureLibrary).find? name =
      (library.find? name).or ((more.idxOf? name).map fun i => ⟨library.size + i + 1, name⟩) := by
  have hidx : (library.names ++ more).idxOf? name = (library.names.idxOf? name).or
      ((more.idxOf? name).map (· + library.names.length)) := List.findIdx?_append
  rw [find?, find?, hidx, Option.map_or, Option.map_map]
  congr 2
  funext i
  show Texture.mk (i + library.names.length + 1) name = ⟨library.size + i + 1, name⟩
  rw [Nat.add_comm i, size]

theorem extends_append (library : TextureLibrary) (more : List String) :
    Extends library ⟨library.names ++ more⟩ := by
  intro name t h
  rw [find?_append, h]
  rfl

theorem intern_of_some (h : library.find? name = some t) : library.intern name = (t, library) := by
  rw [intern, h]

theorem intern_of_none (h : library.find? name = none) :
    library.intern name = (⟨library.size + 1, name⟩, ⟨library.names ++ [name]⟩) := by
  rw [intern, h]
  rfl

/-- What was found before a name was asked for is found afterwards. -/
theorem extends_intern (library : TextureLibrary) (name : String) :
    Extends library (library.intern name).2 := by
  cases h : library.find? name with
  | some t =>
    rw [intern_of_some h]
    exact .refl library
  | none =>
    rw [intern_of_none h]
    exact extends_append library [name]

/-- The texture that is answered is the one that is found from then on. -/
theorem find?_intern (library : TextureLibrary) (name : String) :
    (library.intern name).2.find? name = some (library.intern name).1 := by
  cases h : library.find? name with
  | some t => rw [intern_of_some h, h]
  | none =>
    rw [intern_of_none h, find?_append, h, List.idxOf?_cons, if_pos (beq_self_eq_true name)]
    rfl

theorem internAll_cons (library : TextureLibrary) (name : String) (names : List String) :
    library.internAll (name :: names) = (library.intern name).2.internAll names := rfl

theorem internAll_append (library : TextureLibrary) (names more : List String) :
    library.internAll (names ++ more) = (library.internAll names).internAll more :=
  List.foldl_append

theorem extends_internAll (library : TextureLibrary) (names : List String) :
    Extends library (library.internAll names) := by
  induction names generalizing library with
  | nil => exact .refl library
  | cons name names ih => exact (extends_intern library name).trans (ih _)

theorem unknown_cons_of_some (h : library.find? name = some t) (names : List String) :
    library.unknown (name :: names) = library.unknown names := by
  rw [unknown, List.filter_cons_of_neg (by simp [h]), unknown]

/-- A name that is new is so only where it is mentioned first. -/
theorem unknown_cons_of_none (h : library.find? name = none) (names : List String) :
    library.unknown (name :: names) =
      name :: (⟨library.names ++ [name]⟩ : TextureLibrary).unknown names := by
  rw [unknown, List.filter_cons_of_pos (by simp [h]), List.eraseDups_cons, List.filter_filter,
    unknown]
  congr 3
  funext other
  rw [find?_append, List.idxOf?_cons]
  cases hother : library.find? other with
  | some t => exact Bool.and_false _
  | none =>
    by_cases heq : name = other
    · subst heq
      simp
    · simp [heq, Ne.symm heq]

/-- New names are put behind those that there are, each once and in the order of the first time. -/
theorem names_internAll (library : TextureLibrary) (names : List String) :
    (library.internAll names).names = library.names ++ library.unknown names := by
  induction names generalizing library with
  | nil => exact (List.append_nil _).symm
  | cons name names ih =>
    rw [internAll_cons, ih]
    cases h : library.find? name with
    | some t => rw [intern_of_some h, unknown_cons_of_some h]
    | none =>
      rw [intern_of_none h, unknown_cons_of_none h, List.append_assoc]
      rfl

/-- Everything that can be looked up after some names were asked for. -/
theorem find?_internAll (library : TextureLibrary) (names : List String) (name : String) :
    (library.internAll names).find? name = (library.find? name).or
      (((library.unknown names).idxOf? name).map fun i => ⟨library.size + i + 1, name⟩) := by
  have hnames : library.internAll names = ⟨library.names ++ library.unknown names⟩ :=
    congrArg mk (names_internAll library names)
  rw [hnames, find?_append]

theorem mem_unknown : name ∈ library.unknown names ↔ name ∈ names ∧ library.find? name = none := by
  rw [unknown, List.mem_eraseDups, List.mem_filter, Option.isNone_iff_eq_none]

theorem nodup_eraseDups (names : List String) : names.eraseDups.Nodup := by
  cases names with
  | nil => exact .nil
  | cons name names =>
    have hlt : (names.filter fun other => !other == name).length < (name :: names).length :=
      Nat.lt_succ_of_le (List.length_filter_le _ _)
    rw [List.eraseDups_cons]
    refine List.nodup_cons.mpr ⟨?_, nodup_eraseDups _⟩
    rw [List.mem_eraseDups, List.mem_filter]
    simp
  termination_by names.length
  decreasing_by exact hlt

/-- The names that are new are numbered as they come. -/
theorem find?_unknown {i : Nat} (h : (library.unknown names)[i]? = some name) :
    (library.internAll names).find? name = some ⟨library.size + i + 1, name⟩ := by
  obtain ⟨hi, hname⟩ := List.getElem?_eq_some_iff.mp h
  have hnone : library.find? name = none := (mem_unknown.mp (hname ▸ List.getElem_mem hi)).2
  have hfirst : (library.unknown names).idxOf? name = some i := by
    refine List.idxOf?_eq_some_iff.mpr ⟨hi, hname, fun j hj heq => ?_⟩
    have hsame := (nodup_eraseDups _).getElem_inj_iff.mp (heq.trans hname.symm)
    omega
  rw [find?_internAll, hnone, hfirst]
  rfl

theorem size_internAll (library : TextureLibrary) (names : List String) :
    (library.internAll names).size = library.size + (library.unknown names).length := by
  rw [size, names_internAll, List.length_append, size]

/-- A library knows what it knew and what it was asked for, and nothing else. -/
theorem isSome_find?_internAll (library : TextureLibrary) (names : List String) (name : String) :
    ((library.internAll names).find? name).isSome ↔
      (library.find? name).isSome ∨ name ∈ names := by
  rw [find?_internAll]
  cases h : library.find? name with
  | some t => simp
  | none =>
    rw [Option.none_or, Option.isSome_map, List.isSome_idxOf?, mem_unknown]
    simp [h]

/-- Names that are known already can be asked for at no cost. -/
theorem internAll_of_known (h : ∀ name ∈ names, (library.find? name).isSome) :
    library.internAll names = library := by
  induction names with
  | nil => rfl
  | cons name names ih =>
    obtain ⟨hname, hnames⟩ := List.forall_mem_cons.mp h
    obtain ⟨t, ht⟩ := Option.isSome_iff_exists.mp hname
    rw [internAll_cons, intern_of_some ht]
    exact ih hnames

end SparkTrail.TextureLibrary
