import SparkTrail.Art.Json
import SparkTrail.Proofs.Json.Unlisting
import SparkTrail.Scalar.Single

/-!
# One description or a list of them

A JSON list may be a list of descriptions of art, or one description written as the list of its
fields. It is never both: the first field is a framerate, and no framerate is a description. Which
of the two is tried first is therefore of no account, and one description may be put in brackets. A
text that is neither leaves no trace in the library.
-/
namespace SparkTrail

variable {α : Type} [Scalar α] {d : Data} {description : ArtDescription α}

/-- Where the first field of a list is there, the list starts with it. -/
theorem Data.eq_cons_of_fields? {names : List String} {items : List Data} {first : Data}
    {values : List (Option Data)}
    (h : (Data.list items).fields? names = some (some first :: values)) :
    ∃ more, items = first :: more := by
  rw [Data.fields?] at h
  split at h
  case isFalse => cases h
  case isTrue =>
    have hall := Option.some.inj h
    cases items with
    | nil =>
      have hmissing : List.replicate names.length none = some first :: values := hall
      have hfirst : some first ∈ List.replicate names.length none := by
        rw [hmissing]
        exact List.mem_cons_self
      cases List.eq_of_mem_replicate hfirst
    | cons d more =>
      obtain ⟨rfl⟩ : some d = some first := (List.cons.inj hall).1
      exact ⟨more, rfl⟩

/-- What a framerate is written as has no fields. -/
theorem Framerate.fields?_eq_none {framerate : Framerate α}
    (h : Framerate.ofData? d = some framerate) (names : List String) : d.fields? names = none := by
  cases d with
  | number n => rfl
  | text t => rfl
  | null | bool b | list items | record fields | other => cases h

namespace ArtDescription

/-- A description that is written as a list starts with its framerate. -/
theorem framerate_of_ofData_list {items : List Data}
    (h : ofData? (.list items) = some description) :
    ∃ first more, items = first :: more ∧
      Framerate.ofData? first = some description.framerate := by
  obtain ⟨values, hvalues, h⟩ := Option.bind_eq_some_iff.mp h
  split at h
  case h_2 => cases h
  case h_1 framerate loops textures =>
    obtain ⟨rate, hrate, h⟩ := Option.bind_eq_some_iff.mp h
    obtain ⟨loops, -, h⟩ := Option.bind_eq_some_iff.mp h
    obtain ⟨entries, -, h⟩ := Option.bind_eq_some_iff.mp h
    obtain ⟨list, -, h⟩ := Option.bind_eq_some_iff.mp h
    cases h
    obtain ⟨more, rfl⟩ := Data.eq_cons_of_fields? hvalues
    exact ⟨framerate, more, rfl, hrate⟩

/-- No data is a list of descriptions and a description itself. -/
theorem many_eq_none (h : ofData? d = some description) :
    (many? d : Option (List (ArtDescription α))) = none := by
  cases d with
  | list items =>
    obtain ⟨first, more, rfl, hfirst⟩ := framerate_of_ofData_list h
    have hnone : (ofData? first : Option (ArtDescription α)) = none := by
      rw [ofData?, Framerate.fields?_eq_none hfirst]
      rfl
    show (first :: more).mapM ofData? = none
    rw [List.mapM_cons, hnone]
    rfl
  | null | bool b | number n | text t | record fields | other => rfl

/-- No data are a list of descriptions and a single one as well, so the order of the attempts does
not matter. -/
theorem many_or_single_eq_none (d : Data) :
    (many? d : Option (List (ArtDescription α))) = none ∨
      (single? d : Option (List (ArtDescription α))) = none := by
  cases h : (ofData? d : Option (ArtDescription α)) with
  | none =>
    right
    rw [single?, h]
    rfl
  | some description => exact .inl (many_eq_none h)

theorem listOfData_eq (d : Data) :
    (listOfData? d : Option (List (ArtDescription α))) = (single? d <|> many? d) := by
  rw [listOfData?]
  rcases many_or_single_eq_none (α := α) d with hnone | hnone <;> simp [hnone]

theorem listOfData_single (h : ofData? d = some description) :
    listOfData? d = some [description] := by
  rw [listOfData?, many_eq_none h, single?, h]
  rfl

theorem listOfData_brackets (h : ofData? d = some description) :
    listOfData? (.list [d]) = some [description] := by
  have hmany : many? (.list [d]) = some [description] := by
    show [d].mapM ofData? = some [description]
    rw [List.mapM_cons, h]
    rfl
  rw [listOfData?, hmany]
  rfl

end ArtDescription

namespace Art

def described? (text : String) : Option (List (ArtDescription α)) :=
  (Json.readWhole? text).bind ArtDescription.listOfData?

/-- Loading is a matter of the descriptions: the library is not touched before they are known. -/
theorem load_eq (library : TextureLibrary) (text : String) :
    (load text).run.run library =
      match (described? text : Option (List (ArtDescription α))) with
      | some ds => (some (prepareAll library ds).1, (prepareAll library ds).2)
      | none => (none, library) := by
  rw [described?]
  cases h : Json.readWhole? text with
  | none =>
    rw [load, h]
    rfl
  | some data =>
    rw [load, h, Option.bind_some]
    show (do
      let ds ← OptionT.mk (pure (ArtDescription.listOfData? data))
      OptionT.lift (modifyGet fun library => prepareAll library ds) :
        OptionT (StateM TextureLibrary) (List (Art α))).run.run library = _
    cases (ArtDescription.listOfData? data : Option (List (ArtDescription α))) with
    | none => rfl
    | some ds => rfl

theorem load_of_described {library : TextureLibrary} {text : String}
    {ds : List (ArtDescription α)} (h : described? text = some ds) :
    (load text).run.run library = (some (prepareAll library ds).1, (prepareAll library ds).2) := by
  rw [load_eq, h]

theorem load_of_not_described {library : TextureLibrary} {text : String}
    (h : described? (α := α) text = none) :
    (load (α := α) text).run.run library = (none, library) := by
  rw [load_eq, h]

theorem described_of_read {text : String} {data : Data} (h : Json.readWhole? text = some data) :
    described? (α := α) text = ArtDescription.listOfData? data := by
  rw [described?, h, Option.bind_some]

/-- A text of one description loads the art of that description, with and without brackets around
it, and the same library is left. No data is a list of descriptions and one description, so it does
not matter which is tried first. A text that loads nothing leaves the library as it is. The reader
of texts refuses what is nested 128 deep, so brackets need room for one level more. -/
theorem loads_one_or_list (library : TextureLibrary) (text : String) :
    (∀ (data : Data) (description : ArtDescription α),
      Json.readWhole? text = some data → ArtDescription.ofData? data = some description →
      Json.depth (.list [data]) < 128 →
      let (art, after) := prepare library description
      (load text).run.run library = (some [art], after) ∧
        (load ("[" ++ text ++ "]")).run.run library = (some [art], after)) ∧
    (∀ data : Data,
      ¬((ArtDescription.many? (α := α) data).isSome ∧
        (ArtDescription.single? (α := α) data).isSome) ∧
      ArtDescription.listOfData? (α := α) data =
        (ArtDescription.single? data <|> ArtDescription.many? data)) ∧
    (((load (α := α) text).run.run library).1 = none →
      ((load (α := α) text).run.run library).2 = library) := by
  refine ⟨?_, ?_, ?_⟩
  · intro data description hread hdata hdepth
    have hone : described? text = some [description] := by
      rw [described_of_read hread, ArtDescription.listOfData_single hdata]
    have hlist : described? ("[" ++ text ++ "]") = some [description] := by
      rw [described_of_read (Json.readWhole_brackets hread hdepth),
        ArtDescription.listOfData_brackets hdata]
    exact ⟨load_of_described hone, load_of_described hlist⟩
  · intro data
    refine ⟨?_, ArtDescription.listOfData_eq data⟩
    rintro ⟨hmany, hsingle⟩
    rcases ArtDescription.many_or_single_eq_none (α := α) data with hnone | hnone
    · rw [hnone] at hmany
      cases hmany
    · rw [hnone] at hsingle
      cases hsingle
  · intro hnone
    cases h : described? (α := α) text with
    | none => rw [load_of_not_described h]
    | some ds =>
      rw [load_of_described h] at hnone
      cases hnone

/-- One description written as the list of its fields, and a list that is in order but for its last
element. -/
theorem loads_one_or_list_fields :
    let text := "[\"matchLife\",false,[\"a.png\"]]"
    let late := "[" ++ text ++ ",[]]"
    let data : Data := .list [.text (some "matchLife"), .bool false, .list [.text (some "a.png")]]
    let description : ArtDescription Float32 := ⟨.matchLife, false, [.once (.named "a.png")]⟩
    let art : Art Float32 := ⟨[⟨1, "a.png"⟩], -1, 0, false⟩
    Json.readWhole? text = some data ∧ ArtDescription.ofData? data = some description ∧
      Json.depth (.list [data]) < 128 ∧
      (load text).run.run .empty = (some [art], ⟨["a.png"]⟩) ∧
      (load ("[" ++ text ++ "]")).run.run .empty = (some [art], ⟨["a.png"]⟩) ∧
      ((load (α := Float32) late).run.run .empty).1 = none ∧
      ((load (α := Float32) late).run.run .empty).2 = .empty := by
  intro text late data description art
  have htokens : Json.tokens text.toList = some (Json.listing data) := by decide +kernel
  have hread : Json.readWhole? text = some data :=
    Json.readWhole_eq_some_iff.mpr ⟨Json.read_eq_some_iff.mpr ⟨rfl, htokens⟩, rfl, by decide⟩
  have hdata : ArtDescription.ofData? data = some description := rfl
  have hdepth : Json.depth (.list [data]) < 128 := by decide
  have htokens' : Json.tokens late.toList = some (Json.listing (.list [data, .list []])) := by
    decide +kernel
  have hread' : Json.readWhole? late = some (.list [data, .list []]) :=
    Json.readWhole_eq_some_iff.mpr ⟨Json.read_eq_some_iff.mpr ⟨rfl, htokens'⟩, rfl, by decide⟩
  have hnone : described? (α := Float32) late = none := by
    rw [described_of_read hread']
    rfl
  have hfails : ((load (α := Float32) late).run.run .empty).1 = none := by
    rw [load_of_not_described hnone]
  obtain ⟨hone, hlist⟩ := (loads_one_or_list .empty text).1 data description hread hdata hdepth
  exact ⟨hread, hdata, hdepth, hone, hlist, hfails, (loads_one_or_list .empty late).2.2 hfails⟩

end Art

end SparkTrail
