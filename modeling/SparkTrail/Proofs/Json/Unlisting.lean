import SparkTrail.Proofs.Json.Following
import SparkTrail.Proofs.Json.Listing

/-!
# Values are read from their own tokens

Where the reader finds a value, the tokens it has used are the list of tokens of that value and
nothing else. So a text says a value if and only if it is cut into the tokens of the value, and what
a text says can be put into a list by putting brackets around the text.
-/
namespace SparkTrail.Json

open Text (Reading Reads)

-- The binders are part of the statements here, because they change from call to call.
mutual

/-- A value is read only from the tokens that list it. -/
theorem eq_listing_of_value {ts d rest} (h : Reads (value ts) d rest) :
    isListed d = true ∧ ts = listing d ++ rest := by
  rw [value.eq_def] at h
  split at h
  case h_1 | h_2 | h_3 | h_4 | h_5 | h_7 =>
    obtain ⟨rfl, rfl⟩ := h.eq_of_some
    rw [listing]
    exact ⟨rfl, rfl⟩
  case h_6 more hne =>
    obtain ⟨items, tail, hlt, hitems, h⟩ := h.of_bind
    obtain ⟨rfl, rfl⟩ : Data.list items = d ∧ tail = rest := h.eq_of_some
    obtain ⟨d, ds, rfl, hlisted, hmore⟩ := eq_listing_of_elements ⟨hlt, hitems⟩
    rw [listing, isListed, List.cons_append, List.append_assoc, hmore]
    exact ⟨hlisted, rfl⟩
  case h_8 more hne =>
    obtain ⟨fields, tail, hlt, hfields, h⟩ := h.of_bind
    obtain ⟨rfl, rfl⟩ : Data.record fields = d ∧ tail = rest := h.eq_of_some
    obtain ⟨name, d, ds, rfl, hlisted, hmore⟩ := eq_listing_of_members ⟨hlt, hfields⟩
    rw [listing, isListed, hmore]
    simp only [List.cons_append, List.append_assoc]
    exact ⟨hlisted, trivial⟩
  case h_9 =>
    obtain ⟨hlt, h⟩ := h
    cases h
  termination_by (ts.length, 0)

theorem eq_listing_of_elements {ts items rest} (h : Reads (elements ts) items rest) :
    ∃ d ds, items = d :: ds ∧ areListed (d :: ds) = true ∧
      ts = listing d ++ (listingMore ds ++ rest) := by
  rw [elements] at h
  obtain ⟨first, tail, hlt, hfirst, h⟩ := h.of_bind
  obtain ⟨hlisted, hts⟩ := eq_listing_of_value ⟨hlt, hfirst⟩
  split at h
  case h_1 after hafter =>
    obtain ⟨rfl, rfl⟩ : [first] = items ∧ after = rest := h.eq_of_some
    refine ⟨first, [], rfl, ?_, ?_⟩
    · rw [areListed, hlisted]
      rfl
    · rw [listingMore]
      exact hts.trans (congrArg (listing first ++ ·) hafter)
  case h_2 after hafter =>
    obtain ⟨more, tail', hlt', hmore, h⟩ := h.of_bind
    obtain ⟨rfl, rfl⟩ : first :: more = items ∧ tail' = rest := h.eq_of_some
    obtain ⟨d, ds, rfl, hds, hrest⟩ := eq_listing_of_elements ⟨hlt', hmore⟩
    refine ⟨first, d :: ds, rfl, ?_, ?_⟩
    · rw [areListed, hlisted, hds]
      rfl
    · rw [listingMore, List.cons_append, List.append_assoc, ← hrest]
      exact hts.trans (congrArg (listing first ++ ·) hafter)
  case h_3 =>
    obtain ⟨hlt', h⟩ := h
    cases h
  termination_by (ts.length, 1)

theorem eq_listing_of_members {ts fields rest} (h : Reads (members ts) fields rest) :
    ∃ name d more, fields = (name, d) :: more ∧ areListedFields ((name, d) :: more) = true ∧
      ts = .text name :: .colon :: (listing d ++ (listingFields more ++ rest)) := by
  rw [members.eq_def] at h
  split at h
  case h_1 name ts =>
    obtain ⟨first, tail, hlt, hfirst, h⟩ := h.of_bind
    obtain ⟨hlisted, hts⟩ := eq_listing_of_value ⟨hlt, hfirst⟩
    split at h
    case h_1 after hafter =>
      obtain ⟨rfl, rfl⟩ : [(name, first)] = fields ∧ after = rest := h.eq_of_some
      refine ⟨name, first, [], rfl, ?_, ?_⟩
      · rw [areListedFields, hlisted]
        rfl
      · rw [listingFields]
        exact congrArg (.text name :: .colon :: ·)
          (hts.trans (congrArg (listing first ++ ·) hafter))
    case h_2 after hafter =>
      obtain ⟨more, tail', hlt', hmore, h⟩ := h.of_bind
      obtain ⟨rfl, rfl⟩ : (name, first) :: more = fields ∧ tail' = rest := h.eq_of_some
      obtain ⟨name', d, ds, rfl, hds, hrest⟩ := eq_listing_of_members ⟨hlt', hmore⟩
      refine ⟨name, first, (name', d) :: ds, rfl, ?_, ?_⟩
      · rw [areListedFields, hlisted, hds]
        rfl
      · rw [listingFields]
        simp only [List.cons_append, List.append_assoc]
        rw [← hrest]
        exact congrArg (.text name :: .colon :: ·)
          (hts.trans (congrArg (listing first ++ ·) hafter))
    case h_3 =>
      obtain ⟨hlt', h⟩ := h
      cases h
  case h_2 =>
    obtain ⟨hlt, h⟩ := h
    cases h
  termination_by (ts.length, 1)

end

variable {text : String} {d : Data}

/-- A text says a value if and only if it is cut into the tokens of that value. -/
theorem read_eq_some_iff :
    read? text = some d ↔ isListed d = true ∧ tokens text.toList = some (listing d) := by
  constructor
  · intro h
    obtain ⟨ts, hts, h⟩ := Option.bind_eq_some_iff.mp h
    obtain ⟨⟨d', rest, hlt⟩, hvalue, h⟩ := Option.bind_eq_some_iff.mp h
    have hnothing : rest = [] ∧ d' = d := by
      simpa using h
    obtain ⟨rfl, rfl⟩ := hnothing
    obtain ⟨hlisted, heq⟩ := eq_listing_of_value ⟨hlt, hvalue⟩
    rw [List.append_nil] at heq
    exact ⟨hlisted, heq ▸ hts⟩
  · rintro ⟨hlisted, hts⟩
    exact read_of_listing hts hlisted

/-- A text in brackets says the list of what the text says. -/
theorem read_brackets (h : read? text = some d) :
    read? ("[" ++ text ++ "]") = some (.list [d]) := by
  obtain ⟨hlisted, hts⟩ := read_eq_some_iff.mp h
  have hinner : Lexes text.toList (listing d) [']'] :=
    lexes_of_tokens hts (Text.endsRun_cons rfl [])
  have hclosed : Lexes (text.toList ++ [']']) (listing d ++ [.endList]) [] :=
    hinner.append (lexes_mark (by decide))
  have hall : Lexes ('[' :: (text.toList ++ [']'])) (.beginList :: (listing d ++ [.endList])) [] :=
    hclosed.cons_mark (by decide)
  have htext : ("[" ++ text ++ "]").toList = '[' :: (text.toList ++ [']']) := by
    simp only [String.toList_append]
    rfl
  have hlisting : listing (.list [d]) = .beginList :: (listing d ++ [.endList]) := by
    rw [listing, listingMore]
  refine read_eq_some_iff.mpr ⟨?_, ?_⟩
  · rw [isListed, areListed, areListed, hlisted]
    rfl
  · rw [htext, hlisting]
    exact hall.tokens_eq

/-- Of a text that can be read two more things are asked: that every number and text in it stands
for something, and that it is not nested too deep. -/
theorem readWhole_eq_some_iff :
    readWhole? text = some d ↔ read? text = some d ∧ d.isSound = true ∧ depth d < 128 := by
  constructor
  · intro h
    obtain ⟨d', hread, h⟩ := Option.bind_eq_some_iff.mp h
    split at h
    case isTrue hfit =>
      cases h
      rw [Bool.and_eq_true, decide_eq_true_eq] at hfit
      exact ⟨hread, hfit⟩
    case isFalse => cases h
  · rintro ⟨hread, hsound, hdepth⟩
    rw [readWhole?, hread]
    show (if d.isSound && depth d < 128 then some d else none) = some d
    rw [hsound, decide_eq_true hdepth]
    rfl

theorem readWhole_brackets (h : readWhole? text = some d) (hdepth : depth (.list [d]) < 128) :
    readWhole? ("[" ++ text ++ "]") = some (.list [d]) := by
  obtain ⟨hread, hsound, -⟩ := readWhole_eq_some_iff.mp h
  refine readWhole_eq_some_iff.mpr ⟨read_brackets hread, ?_, hdepth⟩
  rw [Data.isSound, Data.areSound, Data.areSound, hsound]
  rfl

end SparkTrail.Json
