import SparkTrail.Art.Basic
import SparkTrail.Proofs.Art.Interning
import SparkTrail.Proofs.Scalar.Order

/-!
# What descriptions of art expand to

Each description gives one piece of art, and each entry of it a run of frames with the texture that
it refers to. All names that are mentioned are asked for in the order in which they stand, whether
there are frames of them or not. Textures keep their numbers while that goes on, so what a
description gives can be told from the library that is there in the end, and that library gives the
same art when the descriptions are prepared again.
-/
namespace SparkTrail

variable {library later : TextureLibrary}

def TextureRef.mentions : TextureRef → List String
  | .named name => [name]
  | .given _ => []

def TextureRef.find? (library : TextureLibrary) : TextureRef → Option Texture
  | .named name => library.find? name
  | .given texture => some texture

def FrameEntry.ref : FrameEntry → TextureRef
  | .once ref => ref
  | .repeated ref _ => ref

def FrameEntry.times : FrameEntry → Nat
  | .once _ => 1
  | .repeated _ count => repeatCount count

/-- The names that a description mentions, in the order of its entries. -/
def ArtDescription.mentions {α : Type} (d : ArtDescription α) : List String :=
  d.entries.flatMap fun entry => entry.ref.mentions

theorem TextureRef.resolve_snd (library : TextureLibrary) (ref : TextureRef) :
    (ref.resolve library).2 = library.internAll ref.mentions := by
  cases ref <;> rfl

theorem TextureRef.find?_resolve (ref : TextureRef) (h : (ref.resolve library).2.Extends later) :
    ref.find? later = some (ref.resolve library).1 := by
  cases ref with
  | named name => exact h name _ (library.find?_intern name)
  | given texture => rfl

theorem FrameEntry.expand_eq (library : TextureLibrary) (entry : FrameEntry) :
    entry.expand library =
      (List.replicate entry.times (entry.ref.resolve library).1,
        (entry.ref.resolve library).2) := by
  cases entry <;> rfl

/-- Names are registered in the order of the entries, whether there are frames of them or not. -/
theorem expandAll_snd (library : TextureLibrary) (entries : List FrameEntry) :
    (expandAll library entries).2 =
      library.internAll (entries.flatMap fun entry => entry.ref.mentions) := by
  induction entries generalizing library with
  | nil => rfl
  | cons entry entries ih =>
    have hfirst : (entry.expand library).2 = library.internAll entry.ref.mentions := by
      rw [entry.expand_eq, entry.ref.resolve_snd]
    rw [List.flatMap_cons, library.internAll_append, ← hfirst]
    exact ih _

/-- The frames are those of the textures that any later library finds. -/
theorem expandAll_fst {entries : List FrameEntry}
    (h : (expandAll library entries).2.Extends later) :
    (expandAll library entries).1.map some =
      entries.flatMap fun entry => List.replicate entry.times (entry.ref.find? later) := by
  induction entries generalizing library with
  | nil => rfl
  | cons entry entries ih =>
    have hmore : (entry.expand library).2.Extends later := by
      refine .trans ?_ h
      show (entry.expand library).2.Extends (expandAll (entry.expand library).2 entries).2
      rw [expandAll_snd]
      exact TextureLibrary.extends_internAll _ _
    have hfirst : (entry.expand library).1.map some =
        List.replicate entry.times (entry.ref.find? later) := by
      rw [entry.expand_eq] at hmore ⊢
      rw [entry.ref.find?_resolve hmore, List.map_replicate]
    rw [List.flatMap_cons, ← hfirst, ← ih h, ← List.map_append]
    rfl

namespace Art

section Prepare

variable {α : Type} [Scalar α] {d : ArtDescription α} {ds : List (ArtDescription α)}
  {art art' : Art α} {arts arts' : List (Art α)}

/-- The art that a description gives where the library knows its textures. -/
structure Prepared (library : TextureLibrary) (d : ArtDescription α) (art : Art α) : Prop where
  textures_eq : art.textures.map some =
    d.entries.flatMap fun entry => List.replicate entry.times (entry.ref.find? library)
  eq_ofFrames : art = ofFrames art.textures d.framerate d.loops

theorem Prepared.unique (h : Prepared library d art) (h' : Prepared library d art') :
    art = art' := by
  have htextures : art.textures = art'.textures :=
    (Option.some_injective _).list_map (h.textures_eq.trans h'.textures_eq.symm)
  rw [h.eq_ofFrames, h'.eq_ofFrames, htextures]

/-- A library and descriptions leave no choice for the art. -/
theorem Prepared.unique_all (h : List.Forall₂ (Prepared library) ds arts)
    (h' : List.Forall₂ (Prepared library) ds arts') : arts = arts' := by
  induction h generalizing arts' with
  | nil =>
    cases h'
    rfl
  | cons hart _ ih =>
    cases h' with
    | cons hart' hmore => rw [hart.unique hart', ih hmore]

theorem textures_ofFrames (textures : List Texture) (framerate : Framerate α) (loops : Bool) :
    (ofFrames textures framerate loops).textures = textures := by
  cases framerate <;> rfl

theorem prepare_snd (library : TextureLibrary) (d : ArtDescription α) :
    (prepare library d).2 = library.internAll d.mentions :=
  expandAll_snd library d.entries

theorem prepared_prepare (h : (prepare library d).2.Extends later) :
    Prepared later d (prepare library d).1 := by
  have htextures : (prepare library d).1.textures = (expandAll library d.entries).1 :=
    textures_ofFrames _ _ _
  constructor
  · rw [htextures]
    exact expandAll_fst h
  · rw [htextures]
    rfl

theorem prepareAll_cons (library : TextureLibrary) (d : ArtDescription α)
    (ds : List (ArtDescription α)) :
    prepareAll library (d :: ds) =
      ((prepare library d).1 :: (prepareAll (prepare library d).2 ds).1,
        (prepareAll (prepare library d).2 ds).2) := rfl

theorem prepareAll_snd (library : TextureLibrary) (ds : List (ArtDescription α)) :
    (prepareAll library ds).2 = library.internAll (ds.flatMap ArtDescription.mentions) := by
  induction ds generalizing library with
  | nil => rfl
  | cons d ds ih =>
    rw [List.flatMap_cons, library.internAll_append, ← prepare_snd]
    exact ih _

/-- Art is what its description gives in every later library, because textures keep their
numbers. -/
theorem prepared_prepareAll (h : (prepareAll library ds).2.Extends later) :
    List.Forall₂ (Prepared later) ds (prepareAll library ds).1 := by
  induction ds generalizing library with
  | nil => exact .nil
  | cons d ds ih =>
    refine .cons (prepared_prepare (.trans ?_ h)) (ih h)
    rw [prepareAll_cons, prepareAll_snd]
    exact TextureLibrary.extends_internAll _ _

theorem prepareAll_append (library : TextureLibrary) (ds more : List (ArtDescription α)) :
    prepareAll library (ds ++ more) =
      ((prepareAll library ds).1 ++ (prepareAll (prepareAll library ds).2 more).1,
        (prepareAll (prepareAll library ds).2 more).2) := by
  induction ds generalizing library with
  | nil => rfl
  | cons d ds ih =>
    rw [List.cons_append, prepareAll_cons, ih, prepareAll_cons]
    rfl

/-- To prepare the descriptions again changes nothing. -/
theorem prepareAll_again (library : TextureLibrary) (ds : List (ArtDescription α)) :
    prepareAll (prepareAll library ds).2 ds = prepareAll library ds := by
  have hlibrary : (prepareAll (prepareAll library ds).2 ds).2 = (prepareAll library ds).2 := by
    rw [prepareAll_snd]
    refine TextureLibrary.internAll_of_known fun name hname => ?_
    rw [prepareAll_snd, TextureLibrary.isSome_find?_internAll]
    exact .inr hname
  have hagain := prepared_prepareAll (.refl (prepareAll (prepareAll library ds).2 ds).2)
  rw [hlibrary] at hagain
  have harts := Prepared.unique_all hagain (prepared_prepareAll (.refl _))
  exact Prod.ext harts hlibrary

/-- A framerate of its own is positive, so only frames that last a whole life have a negative
one. -/
theorem Prepared.framerate_pos [Scalar.Ordered α] (hdefault : (0 : α) < defaultFramerate)
    (h : Prepared library d art) (hd : d.framerate ≠ .matchLife) : 0 < art.framerate := by
  rw [h.eq_ofFrames]
  cases hrate : d.framerate with
  | matchLife => exact absurd hrate hd
  | fixed perSecond =>
    show 0 < if 0 < perSecond then perSecond else defaultFramerate
    split
    case isTrue hpos => exact hpos
    case isFalse => exact hdefault

/-- A negative rate marks art that lasts a whole life, and no other art has one. -/
theorem Prepared.matchesLife_iff [Scalar.Ordered α] (hdefault : (0 : α) < defaultFramerate)
    (hminus : (-1 : α) < 0) (h : Prepared library d art) :
    art.matchesLife = true ↔ d.framerate = .matchLife := by
  rw [matchesLife, decide_eq_true_iff]
  by_cases hd : d.framerate = .matchLife
  · refine iff_of_true ?_ hd
    rw [h.eq_ofFrames, hd]
    exact hminus
  · refine iff_of_false (fun hneg => ?_) hd
    exact Scalar.Ordered.not_le_of_lt hneg (Scalar.Ordered.le_of_lt (h.framerate_pos hdefault hd))

end Prepare

/-- Descriptions give one piece of art each, in their order. Its frames are, entry by entry, as many
times as the entry says the texture that the library knows in the end, where every name that is
mentioned is found. Frames last a whole life only where the description says so, and all others
follow each other at a positive rate. The library knows what it knew before, by the same numbers,
and the names mentioned; the new ones are numbered in the order in which they are first mentioned.
To prepare some descriptions and then others is to prepare them together, and to prepare them again
gives the same art and leaves the library as it is. Neither memory nor numbers run out here: a count
may stand for up to `2 ^ 64 - 1` frames, which no program can lay out, and textures go on being
numbered behind the last number of 32 bits. -/
theorem prepared_as_described (library : TextureLibrary) (ds : List (ArtDescription Float32)) :
    let arts := (prepareAll library ds).1
    let after := (prepareAll library ds).2
    let mentioned := ds.flatMap ArtDescription.mentions
    List.Forall₂ (fun d art =>
      art.textures.map some =
        (d.entries.flatMap fun entry => List.replicate entry.times (entry.ref.find? after)) ∧
      (art.matchesLife = true ↔ d.framerate = .matchLife) ∧
      (d.framerate ≠ .matchLife → 0 < art.framerate)) ds arts ∧
    (∀ name, (after.find? name).isSome ↔ (library.find? name).isSome ∨ name ∈ mentioned) ∧
    (∀ name t, library.find? name = some t → after.find? name = some t) ∧
    after.size = library.size + (library.unknown mentioned).length ∧
    (∀ i name, (library.unknown mentioned)[i]? = some name →
      after.find? name = some ⟨library.size + i + 1, name⟩) ∧
    (∀ more, prepareAll library (ds ++ more) =
      (arts ++ (prepareAll after more).1, (prepareAll after more).2)) ∧
    prepareAll after ds = (arts, after) := by
  intro arts after mentioned
  have hdefault : (0 : Float32) < defaultFramerate := by decide
  have hminus : (-1 : Float32) < 0 := by decide
  have hafter : after = library.internAll mentioned := prepareAll_snd library ds
  refine ⟨?_, ?_, ?_, ?_, ?_, prepareAll_append library ds, prepareAll_again library ds⟩
  · refine (prepared_prepareAll (.refl after)).imp fun d art h => ?_
    exact ⟨h.textures_eq, h.matchesLife_iff hdefault hminus, h.framerate_pos hdefault⟩
  · rw [hafter]
    exact library.isSome_find?_internAll mentioned
  · rw [hafter]
    exact library.extends_internAll mentioned
  · rw [hafter]
    exact library.size_internAll mentioned
  · intro i name hname
    rw [hafter]
    exact TextureLibrary.find?_unknown hname

/-- A library that knows one name, and two descriptions that mention two others. One of these stands
for no frame and is numbered all the same, and the other one keeps the number that it gets first. -/
theorem prepared_as_described_two :
    let library : TextureLibrary := ⟨["b"]⟩
    let ds : List (ArtDescription Float32) :=
      [⟨.fixed 0, true, [.once (.named "a"), .repeated (.given ⟨1, "b"⟩) 0,
          .repeated (.named "c") (-1)]⟩,
        ⟨.matchLife, true, [.once (.named "b"), .repeated (.named "a") 0,
          .repeated (.named "b") 1.5]⟩]
    let arts := (prepareAll library ds).1
    let after := (prepareAll library ds).2
    let mentioned := ds.flatMap ArtDescription.mentions
    [repeatCount 0, repeatCount (-1), repeatCount 1.5] = [1, 0, 2] ∧
      library.find? "b" = some ⟨1, "b"⟩ ∧ (library.unknown mentioned)[1]? = some "c" ∧
      after.find? "b" = some ⟨1, "b"⟩ ∧ after.find? "c" = some ⟨3, "c"⟩ ∧
      arts.map (·.textures) =
        [[⟨2, "a"⟩, ⟨1, "b"⟩], [⟨1, "b"⟩, ⟨2, "a"⟩, ⟨1, "b"⟩, ⟨1, "b"⟩]] ∧
      arts.map (·.matchesLife) = [false, true] ∧ prepareAll after ds = (arts, after) := by
  intro library ds arts after mentioned
  have hold : library.find? "b" = some ⟨1, "b"⟩ := by decide
  have hnew : (library.unknown mentioned)[1]? = some "c" := by decide
  obtain ⟨-, -, hkept, -, hnumbered, -, hagain⟩ := prepared_as_described library ds
  exact ⟨by decide, hold, hnew, hkept "b" _ hold, hnumbered 1 "c" hnew, by decide, by decide,
    hagain⟩

end Art

end SparkTrail
