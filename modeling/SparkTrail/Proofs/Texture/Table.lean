import SparkTrail.Proofs.Art.Interning

/-!
# A library of textures kept in a table

A library is its names in the order in which they were first asked for. What a program keeps is a
table from names to textures and, beside it, the last number that it gave out, in 32 bits. The table
counts names and the counter counts numbers, and the two go on in step as long as the numbers last:
names and textures correspond one to one, and the numbers are those from one on, without a gap.
-/
namespace SparkTrail

/-- A library as it is kept: the textures by their names, and the last number given out. -/
structure TextureTable where
  byName : Std.HashMap String Texture
  lastId : UInt32

/-- Each name with the texture that is answered, where `intern` answers one name, and what there is
afterwards. -/
def answers {σ : Type} (intern : σ → String → Texture × σ) (s : σ) :
    List String → List (String × Texture) × σ
  | [] => ([], s)
  | name :: names =>
    let (texture, s) := intern s name
    let (more, s) := answers intern s names
    ((name, texture) :: more, s)

variable {name : String} {names : List String} {t : Texture}

theorem map_fst_answers {σ : Type} (intern : σ → String → Texture × σ) (s : σ)
    (names : List String) : (answers intern s names).1.map Prod.fst = names := by
  induction names generalizing s with
  | nil => rfl
  | cons name names ih => exact congrArg (name :: ·) (ih _)

namespace TextureLibrary

variable {library : TextureLibrary}

theorem answers_cons (library : TextureLibrary) (name : String) (names : List String) :
    answers intern library (name :: names) =
      ((name, (library.intern name).1) :: (answers intern (library.intern name).2 names).1,
        (answers intern (library.intern name).2 names).2) := rfl

theorem answers_snd (library : TextureLibrary) (names : List String) :
    (answers intern library names).2 = library.internAll names := by
  induction names generalizing library with
  | nil => rfl
  | cons name names ih => exact ih _

theorem answers_append (library : TextureLibrary) (names more : List String) :
    (answers intern library (names ++ more)).1 =
      (answers intern library names).1 ++ (answers intern (library.internAll names) more).1 := by
  induction names generalizing library with
  | nil => rfl
  | cons name names ih => exact congrArg ((name, (library.intern name).1) :: ·) (ih _)

/-- What is answered is what the library finds in the end. -/
theorem mem_answers_iff : (name, t) ∈ (answers intern library names).1 ↔
    name ∈ names ∧ (library.internAll names).find? name = some t := by
  induction names generalizing library with
  | nil => simp [answers]
  | cons first names ih =>
    have hfirst : (library.internAll (first :: names)).find? first =
        some (library.intern first).1 :=
      extends_internAll _ names first _ (library.find?_intern first)
    rw [answers_cons, List.mem_cons, ih, List.mem_cons, ← internAll_cons]
    constructor
    · rintro (heq | ⟨hmem, hfind⟩)
      · obtain ⟨rfl, rfl⟩ := Prod.mk.inj heq
        exact ⟨.inl rfl, hfirst⟩
      · exact ⟨.inr hmem, hfind⟩
    · rintro ⟨rfl | hmem, hfind⟩
      · rw [hfirst] at hfind
        exact .inl (congrArg (Prod.mk name) (Option.some.inj hfind).symm)
      · exact .inr ⟨hmem, hfind⟩

/-- The number of a texture is the place of its name. -/
theorem place_of_find? (h : library.find? name = some t) :
    t.name = name ∧ 0 < t.id ∧ library.names[t.id - 1]? = some name := by
  obtain ⟨i, hi, rfl⟩ := Option.map_eq_some_iff.mp h
  obtain ⟨hlt, hname, -⟩ := List.idxOf?_eq_some_iff.mp hi
  exact ⟨rfl, Nat.succ_pos i, List.getElem?_eq_some_iff.mpr ⟨hlt, hname⟩⟩

theorem of_find? (h : library.find? name = some t) :
    t.name = name ∧ t ≠ Texture.empty ∧ t.isEmpty = false := by
  obtain ⟨hname, hpos, -⟩ := place_of_find? h
  refine ⟨hname, ?_, beq_false_of_ne (Nat.ne_of_gt hpos)⟩
  rintro rfl
  exact absurd hpos (Nat.lt_irrefl 0)

/-- A name has one texture, and both the texture and its number have one name. -/
theorem eq_iff_of_find? {name' : String} {t' : Texture} (h : library.find? name = some t)
    (h' : library.find? name' = some t') :
    (t = t' ↔ name = name') ∧ (t.id = t'.id ↔ name = name') := by
  obtain ⟨-, -, hplace⟩ := place_of_find? h
  obtain ⟨-, -, hplace'⟩ := place_of_find? h'
  have hname : t.id = t'.id → name = name' := by
    intro hid
    rw [hid, hplace'] at hplace
    exact (Option.some.inj hplace).symm
  have htexture : name = name' → t = t' := by
    rintro rfl
    exact Option.some.inj (h.symm.trans h')
  exact ⟨⟨fun heq => hname (congrArg Texture.id heq), htexture⟩,
    hname, fun heq => congrArg Texture.id (htexture heq)⟩

/-! ## From the empty library on -/

theorem unknown_empty (names : List String) : empty.unknown names = names.eraseDups := by
  rw [unknown]
  congr 1
  exact List.filter_eq_self.mpr fun name _ => rfl

theorem size_of_empty (names : List String) :
    (empty.internAll names).size = names.eraseDups.length := by
  rw [size_internAll, unknown_empty]
  exact Nat.zero_add _

theorem find?_of_distinct {i : Nat} (h : names.eraseDups[i]? = some name) :
    (empty.internAll names).find? name = some ⟨i + 1, name⟩ := by
  have hfind := find?_unknown ((unknown_empty names).symm ▸ h)
  have hplace : empty.size + i + 1 = i + 1 := congrArg (· + 1) (Nat.zero_add i)
  rwa [hplace] at hfind

theorem find?_iff_mem_answers : (empty.internAll names).find? name = some t ↔
    (name, t) ∈ (answers intern empty names).1 := by
  refine Iff.trans ?_ mem_answers_iff.symm
  refine (and_iff_right_of_imp fun h => ?_).symm
  have hsome := (isSome_find?_internAll empty names name).mp (Option.isSome_of_eq_some h)
  exact hsome.resolve_left Bool.false_ne_true

/-- The numbers are those from one to how many textures there are. -/
theorem exists_id_iff {n : Nat} :
    (∃ name t, (empty.internAll names).find? name = some t ∧ t.id = n) ↔
      1 ≤ n ∧ n ≤ (empty.internAll names).size := by
  constructor
  · rintro ⟨name, t, h, rfl⟩
    obtain ⟨-, hpos, hplace⟩ := place_of_find? h
    obtain ⟨hlt, -⟩ := List.getElem?_eq_some_iff.mp hplace
    have hle : t.id - 1 < (empty.internAll names).size := hlt
    omega
  · rintro ⟨hpos, hle⟩
    rw [size_of_empty] at hle
    have hlt : n - 1 < names.eraseDups.length := by omega
    exact ⟨_, _, find?_of_distinct (List.getElem?_eq_getElem hlt), Nat.sub_add_cancel hpos⟩

end TextureLibrary

namespace TextureTable

def empty : TextureTable :=
  ⟨∅, 0⟩

def intern (table : TextureTable) (name : String) : Texture × TextureTable :=
  match table.byName[name]? with
  | some texture => (texture, table)
  | none =>
    let id := table.lastId + 1
    let texture : Texture := ⟨id.toNat, name⟩
    (texture, ⟨table.byName.insert name texture, id⟩)

/-- The table holds what the library finds, and its last number is how many textures there are. -/
structure Represents (table : TextureTable) (library : TextureLibrary) : Prop where
  find_eq : ∀ name, table.byName[name]? = library.find? name
  size_eq : table.byName.size = library.size
  lastId_eq : table.lastId.toNat = library.size

variable {table : TextureTable} {library : TextureLibrary}

theorem represents_empty : Represents empty TextureLibrary.empty where
  find_eq _ := Std.HashMap.getElem?_empty
  size_eq := Std.HashMap.size_empty
  lastId_eq := rfl

/-- A name that is new is put in the table with the next number, if there is one. -/
theorem Represents.intern (h : Represents table library) (name : String)
    (hsize : (library.intern name).2.size < UInt32.size) :
    (table.intern name).1 = (library.intern name).1 ∧
      Represents (table.intern name).2 (library.intern name).2 := by
  rw [TextureTable.intern, h.find_eq]
  cases hfind : library.find? name with
  | some t =>
    rw [TextureLibrary.intern_of_some hfind]
    exact ⟨rfl, h⟩
  | none =>
    rw [TextureLibrary.intern_of_none hfind] at hsize ⊢
    have hlonger : (⟨library.names ++ [name]⟩ : TextureLibrary).size = library.size + 1 :=
      List.length_append
    have hid : (table.lastId + 1).toNat = library.size + 1 := by
      rw [hlonger] at hsize
      rw [UInt32.toNat_add, h.lastId_eq]
      exact Nat.mod_eq_of_lt hsize
    have hnew : name ∉ table.byName := by
      rw [← Std.HashMap.isSome_getElem?_iff_mem, h.find_eq, hfind]
      exact Bool.false_ne_true
    dsimp only
    rw [hid]
    refine ⟨rfl, ?_, ?_, ?_⟩
    · intro other
      rw [Std.HashMap.getElem?_insert, TextureLibrary.find?_append, ← h.find_eq,
        List.idxOf?_cons]
      by_cases heq : name = other
      · subst heq
        rw [h.find_eq, hfind]
        simp
      · simp [heq]
    · rw [Std.HashMap.size_insert, if_neg hnew, h.size_eq, hlonger]
    · exact hid.trans hlonger.symm

/-- As long as there are numbers, the table answers as the library does. -/
theorem Represents.answers (h : Represents table library)
    (hsize : (library.internAll names).size < UInt32.size) :
    (answers TextureTable.intern table names).1 =
        (SparkTrail.answers TextureLibrary.intern library names).1 ∧
      Represents (SparkTrail.answers TextureTable.intern table names).2
        (library.internAll names) := by
  induction names generalizing table library with
  | nil => exact ⟨rfl, h⟩
  | cons name names ih =>
    rw [TextureLibrary.internAll_cons] at hsize ⊢
    have hfirst : (library.intern name).2.size < UInt32.size := by
      rw [TextureLibrary.size_internAll] at hsize
      omega
    obtain ⟨hanswer, hnext⟩ := h.intern name hfirst
    obtain ⟨hmore, hend⟩ := ih hnext hsize
    refine ⟨?_, hend⟩
    rw [TextureLibrary.answers_cons, ← hanswer, ← hmore]
    rfl

end TextureTable

namespace TextureLibrary

/-- After any names were asked for, from the first one on: the library has one texture for each name
that was asked for and no other, which is the one that was answered, whenever that was; the textures
are numbered from one on in the order in which the names came up first, and every number up to how
many there are is one of theirs. Equal textures, and textures with equal numbers, were answered to
equal names only. None of them is the empty one or counts as empty, the one without a name neither.
What was answered once is what is found and answered after any more names. A table with a counter of
32 bits answers and finds the same as long as there are fewer names than the counter has values. -/
theorem interned_one_to_one (names : List String) :
    let library := empty.internAll names
    let calls := (answers intern empty names).1
    let distinct := names.eraseDups
    calls.map Prod.fst = names ∧ (answers intern empty names).2 = library ∧
    library.size = distinct.length ∧
    (∀ i name, distinct[i]? = some name → library.find? name = some ⟨i + 1, name⟩) ∧
    (∀ n, (∃ name t, library.find? name = some t ∧ t.id = n) ↔ 1 ≤ n ∧ n ≤ library.size) ∧
    (∀ a ∈ calls, ∀ b ∈ calls, (a.2 = b.2 ↔ a.1 = b.1) ∧ (a.2.id = b.2.id ↔ a.1 = b.1)) ∧
    (∀ name t, library.find? name = some t ↔ (name, t) ∈ calls) ∧
    (∀ name t, (name, t) ∈ calls → t.name = name ∧ t ≠ Texture.empty ∧ t.isEmpty = false) ∧
    (∀ more, (answers intern empty (names ++ more)).1 = calls ++ (answers intern library more).1 ∧
      ∀ name t, (name, t) ∈ calls → (library.internAll more).find? name = some t ∧
        ((library.internAll more).intern name).1 = t) ∧
    (distinct.length < UInt32.size →
      let kept := answers TextureTable.intern .empty names
      kept.1 = calls ∧ kept.2.byName.size = library.size ∧
        ∀ name, kept.2.byName[name]? = library.find? name) := by
  intro library calls distinct
  have hcalls : ∀ name t, library.find? name = some t ↔ (name, t) ∈ calls :=
    fun name t => find?_iff_mem_answers
  refine ⟨map_fst_answers _ _ _, answers_snd _ _, size_of_empty names,
    fun i name => find?_of_distinct, fun n => exists_id_iff, ?_, hcalls, ?_, ?_, ?_⟩
  · rintro ⟨name, t⟩ ha ⟨name', t'⟩ hb
    exact eq_iff_of_find? ((hcalls name t).mpr ha) ((hcalls name' t').mpr hb)
  · intro name t ht
    exact of_find? ((hcalls name t).mpr ht)
  · intro more
    refine ⟨answers_append empty names more, fun name t ht => ?_⟩
    have hlater := extends_internAll library more name t ((hcalls name t).mpr ht)
    exact ⟨hlater, by rw [intern_of_some hlater]⟩
  · intro hfew
    have hbound : (empty.internAll names).size < UInt32.size := size_of_empty names ▸ hfew
    obtain ⟨hanswers, htable⟩ := TextureTable.represents_empty.answers hbound
    exact ⟨hanswers, htable.size_eq, htable.find_eq⟩

/-- The empty name gets a number like any other, and a name that comes up again keeps the one it
has. -/
theorem interned_one_to_one_again :
    let names := ["b", "", "b", "a", ""]
    let library := empty.internAll names
    let calls := (answers intern empty names).1
    names.eraseDups[1]? = some "" ∧ library.find? "" = some ⟨2, ""⟩ ∧
      (⟨2, ""⟩ : Texture) ≠ Texture.empty ∧ ((library.internAll ["c"]).intern "").1 = ⟨2, ""⟩ ∧
      names.eraseDups.length < UInt32.size ∧
      (answers TextureTable.intern .empty names).1 = calls ∧
      calls.map (·.2.id) = [1, 2, 1, 3, 2] := by
  intro names library calls
  have hsecond : names.eraseDups[1]? = some "" := by decide
  have hfew : names.eraseDups.length < UInt32.size := by decide
  obtain ⟨-, -, -, hnumbered, -, -, hcalls, hnonempty, hlater, htable⟩ := interned_one_to_one names
  have hfind := hnumbered 1 "" hsecond
  have hmem := (hcalls "" _).mp hfind
  obtain ⟨-, hkept⟩ := hlater ["c"]
  exact ⟨hsecond, hfind, (hnonempty "" _ hmem).2.1, (hkept "" _ hmem).2, hfew, (htable hfew).1,
    by decide⟩

end TextureLibrary

end SparkTrail
