import SparkTrail.Json.Reader
import SparkTrail.Proofs.Text.Reading

/-!
# Data as a list of tokens

Every value but those of no kind has one list of tokens, and the reader of values finds the value
again at the start of that list, whatever comes after it.
-/
namespace SparkTrail.Json

open Text (Reading Reads)

mutual

def listing : Data → List Token
  | .null => [.null]
  | .bool b => [.bool b]
  | .number n => [.number n]
  | .text t => [.text t]
  | .list [] => [.beginList, .endList]
  | .list (d :: ds) => .beginList :: (listing d ++ listingMore ds)
  | .record [] => [.beginRecord, .endRecord]
  | .record ((name, d) :: fields) =>
    .beginRecord :: .text name :: .colon :: (listing d ++ listingFields fields)
  | .other => []

/-- The tokens of the elements behind the first one, up to the closing bracket. -/
def listingMore : List Data → List Token
  | [] => [.endList]
  | d :: ds => .comma :: (listing d ++ listingMore ds)

/-- The tokens of the fields behind the first one, up to the closing brace. -/
def listingFields : List (Option String × Data) → List Token
  | [] => [.endRecord]
  | (name, d) :: fields => .comma :: .text name :: .colon :: (listing d ++ listingFields fields)

end

mutual

/-- Whether a value is of a kind that JSON has. -/
def isListed : Data → Bool
  | .list items => areListed items
  | .record fields => areListedFields fields
  | .other => false
  | _ => true

def areListed : List Data → Bool
  | [] => true
  | d :: ds => isListed d && areListed ds

def areListedFields : List (Option String × Data) → Bool
  | [] => true
  | (_, d) :: fields => isListed d && areListedFields fields

end

variable {d : Data} {ds : List Data} {fields : List (Option String × Data)} {name : Option String}
  {ts rest : List Token}

/-- No value starts with a closing bracket. -/
theorem listing_start (h : isListed d = true) :
    ∃ t more, listing d = t :: more ∧ t ≠ .endList := by
  cases d with
  | null => exact ⟨_, _, by rw [listing], by simp⟩
  | bool b => exact ⟨_, _, by rw [listing], by simp⟩
  | number n => exact ⟨_, _, by rw [listing], by simp⟩
  | text t => exact ⟨_, _, by rw [listing], by simp⟩
  | list items =>
    cases items with
    | nil => exact ⟨_, _, by rw [listing], by simp⟩
    | cons d ds => exact ⟨_, _, by rw [listing], by simp⟩
  | record fields =>
    rcases fields with _ | ⟨⟨name, d⟩, more⟩
    · exact ⟨_, _, by rw [listing], by simp⟩
    · exact ⟨_, _, by rw [listing], by simp⟩
  | other => rw [isListed] at h; cases h

/-! ## One step of each reader -/

theorem reads_list (hne : ∀ more, ts ≠ .endList :: more) (h : Reads (elements ts) ds rest) :
    Reads (value (.beginList :: ts)) (.list ds) rest := by
  rw [value]
  · exact h.bind fun hlt => ⟨_, rfl⟩
  · intro more heq
    exact hne more heq

theorem reads_record (h : Reads (members (.text name :: ts)) fields rest) :
    Reads (value (.beginRecord :: .text name :: ts)) (.record fields) rest := by
  rw [value]
  · exact h.bind fun hlt => ⟨_, rfl⟩
  · intro more heq
    cases heq

theorem reads_last (h : Reads (value ts) d (.endList :: rest)) : Reads (elements ts) [d] rest := by
  rw [elements]
  exact h.bind fun hlt => ⟨_, rfl⟩

theorem reads_more {more : List Token} (h : Reads (value ts) d (.comma :: more))
    (hmore : Reads (elements more) ds rest) : Reads (elements ts) (d :: ds) rest := by
  rw [elements]
  exact h.bind fun hlt => hmore.bind fun hlt' => ⟨_, rfl⟩

theorem reads_lastField (h : Reads (value ts) d (.endRecord :: rest)) :
    Reads (members (.text name :: .colon :: ts)) [(name, d)] rest := by
  rw [members]
  exact h.bind fun hlt => ⟨_, rfl⟩

theorem reads_moreFields {more : List Token} (h : Reads (value ts) d (.comma :: more))
    (hmore : Reads (members more) fields rest) :
    Reads (members (.text name :: .colon :: ts)) ((name, d) :: fields) rest := by
  rw [members]
  exact h.bind fun hlt => hmore.bind fun hlt' => ⟨_, rfl⟩

/-! ## The whole list -/

mutual

/-- The tokens of a value are read as this value, and what follows them is left. -/
theorem reads_value : ∀ (d : Data), isListed d = true → ∀ rest,
    Reads (value (listing d ++ rest)) d rest
  | .null, _, rest | .bool _, _, rest | .number _, _, rest | .text _, _, rest => by
    rw [listing, List.singleton_append, value]
    exact ⟨Reading.lt_cons rest, rfl⟩
  | .list [], _, rest => by
    rw [listing, List.cons_append, List.singleton_append, value]
    exact ⟨by simp +arith, rfl⟩
  | .record [], _, rest => by
    rw [listing, List.cons_append, List.singleton_append, value]
    exact ⟨by simp +arith, rfl⟩
  | .list (d :: ds), h, rest => by
    rw [isListed, areListed, Bool.and_eq_true] at h
    obtain ⟨t, more, hstart, hne⟩ := listing_start h.1
    rw [listing, List.cons_append, List.append_assoc]
    refine reads_list ?_ (reads_elements (reads_value d h.1) ds h.2 rest)
    intro tail heq
    rw [hstart, List.cons_append] at heq
    exact hne (List.cons.inj heq).1
  | .record ((name, d) :: fields), h, rest => by
    rw [isListed, areListedFields, Bool.and_eq_true] at h
    rw [listing, List.cons_append, List.cons_append, List.cons_append, List.append_assoc]
    exact reads_record (reads_members name (reads_value d h.1) fields h.2 rest)

/-- The elements of a list, given how its first one is read. -/
theorem reads_elements {d : Data} (hd : ∀ rest, Reads (value (listing d ++ rest)) d rest) :
    ∀ (ds : List Data), areListed ds = true → ∀ rest,
      Reads (elements (listing d ++ (listingMore ds ++ rest))) (d :: ds) rest
  | [], _, rest => by
    rw [listingMore, List.singleton_append]
    exact reads_last (hd _)
  | d' :: ds, h, rest => by
    rw [areListed, Bool.and_eq_true] at h
    rw [listingMore, List.cons_append, List.append_assoc]
    exact reads_more (hd _) (reads_elements (reads_value d' h.1) ds h.2 rest)

/-- The fields of a record, given how the value of its first one is read. -/
theorem reads_members (name : Option String) {d : Data}
    (hd : ∀ rest, Reads (value (listing d ++ rest)) d rest) :
    ∀ (fields : List (Option String × Data)), areListedFields fields = true → ∀ rest,
      Reads (members (.text name :: .colon :: (listing d ++ (listingFields fields ++ rest))))
        ((name, d) :: fields) rest
  | [], _, rest => by
    rw [listingFields, List.singleton_append]
    exact reads_lastField (hd _)
  | (name', d') :: fields, h, rest => by
    rw [areListedFields, Bool.and_eq_true] at h
    rw [listingFields, List.cons_append, List.cons_append, List.cons_append, List.append_assoc]
    exact reads_moreFields (hd _) (reads_members name' (reads_value d' h.1) fields h.2 rest)

end

/-- A text that is cut into the tokens of a value says that value. -/
theorem read_of_listing {text : String} (h : tokens text.toList = some (listing d))
    (hd : isListed d = true) : read? text = some d := by
  have hread := reads_value d hd []
  rw [List.append_nil] at hread
  obtain ⟨hlt, hread⟩ := hread
  rw [read?, h]
  show (value (listing d) >>= _) = _
  rw [hread]
  rfl

end SparkTrail.Json
