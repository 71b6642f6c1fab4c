import SparkTrail.Text.Reading

/-!
# Readers that succeed

`Reads x v rest` says what a reader found and what it left; the bound on the length of the rest,
which every reading carries, is out of the view. With it come what most readers start with, a run of
characters of one kind, and the characters that need no escape.
-/
namespace SparkTrail.Text

variable {σ α β : Type} {m n : Nat} {v : α} {w : β} {rest after : List σ}

/-- The reader succeeded with the value `v` and left `rest`. -/
def Reads (x : Option (Reading σ α n)) (v : α) (rest : List σ) : Prop :=
  ∃ h, x = some ⟨v, rest, h⟩

theorem Reads.map {x : Option (Reading σ α n)} (h : Reads x v rest) (f : α → β) :
    Reads (x.map fun r => r.map f) (f v) rest := by
  obtain ⟨hlt, rfl⟩ := h
  exact ⟨hlt, rfl⟩

theorem Reads.map_widen {x : Option (Reading σ α m)} (h : Reads x v rest) (f : α → β)
    (hle : m ≤ n) : Reads (x.map fun r => (r.map f).widen hle) (f v) rest := by
  obtain ⟨hlt, rfl⟩ := h
  exact ⟨Nat.lt_of_lt_of_le hlt hle, rfl⟩

/-- A reader that goes on with what another one left. -/
theorem Reads.bind {x : Option (Reading σ α m)} {f : Reading σ α m → Option (Reading σ β n)}
    (h : Reads x v rest) (hf : ∀ hlt, Reads (f ⟨v, rest, hlt⟩) w after) :
    Reads (x >>= f) w after := by
  obtain ⟨hlt, rfl⟩ := h
  exact hf hlt

/-- What went on with what another reader left. -/
theorem Reads.of_bind {x : Option (Reading σ α m)} {f : Reading σ α m → Option (Reading σ β n)}
    (h : Reads (x >>= f) w after) :
    ∃ v rest hlt, x = some ⟨v, rest, hlt⟩ ∧ Reads (f ⟨v, rest, hlt⟩) w after := by
  obtain ⟨hlt, h⟩ := h
  obtain ⟨⟨v, rest, hlt'⟩, hx, hf⟩ := Option.bind_eq_some_iff.mp h
  exact ⟨v, rest, hlt', hx, hlt, hf⟩

/-- A reading and what it reads. -/
theorem reads_some (r : Reading σ α n) : Reads (some r) r.value r.rest :=
  ⟨r.within, rfl⟩

/-- A reader finds one thing. -/
theorem Reads.eq_of_some {v' : α} {hlt : after.length < n}
    (h : Reads (some ⟨v', after, hlt⟩) v rest) : v' = v ∧ after = rest := by
  obtain ⟨hlt', h⟩ := h
  cases h
  exact ⟨rfl, rfl⟩

variable {kind : Char → Bool} {cs ds : List Char}

/-- The text does not start with a character of the kind. -/
def EndsRun (kind : Char → Bool) (cs : List Char) : Prop :=
  ∀ c, cs.head? = some c → kind c = false

theorem endsRun_nil : EndsRun kind [] := by
  intro c hc
  cases hc

theorem endsRun_cons {c : Char} (h : kind c = false) (cs : List Char) : EndsRun kind (c :: cs) := by
  intro d hd
  cases hd
  exact h

/-- A run that every character of `cs` belongs to, and the next one does not. -/
theorem takeWhile_run (h : ∀ c ∈ cs, kind c = true) (hr : EndsRun kind ds) :
    (cs ++ ds).takeWhile kind = cs := by
  rw [List.takeWhile_append_of_pos h]
  cases ds with
  | nil => simp
  | cons d ds => simp [hr d rfl]

theorem dropWhile_run (h : ∀ c ∈ cs, kind c = true) (hr : EndsRun kind ds) :
    (cs ++ ds).dropWhile kind = ds := by
  rw [List.dropWhile_append_of_pos h]
  cases ds with
  | nil => rfl
  | cons d ds => simp [hr d rfl]

/-- A run is not longer for what follows the text, if that does not go on with it. -/
theorem takeWhile_append_of_endsRun (hr : EndsRun kind ds) :
    (cs ++ ds).takeWhile kind = cs.takeWhile kind := by
  induction cs with
  | nil =>
    have hnone : ∀ c ∈ ([] : List Char), kind c = true := fun c hc => absurd hc List.not_mem_nil
    exact takeWhile_run hnone hr
  | cons c cs ih => rw [List.cons_append, List.takeWhile_cons, List.takeWhile_cons, ih]

theorem dropWhile_append_of_endsRun (hr : EndsRun kind ds) :
    (cs ++ ds).dropWhile kind = cs.dropWhile kind ++ ds := by
  induction cs with
  | nil =>
    have hnone : ∀ c ∈ ([] : List Char), kind c = true := fun c hc => absurd hc List.not_mem_nil
    exact dropWhile_run hnone hr
  | cons c cs ih =>
    rw [List.cons_append, List.dropWhile_cons, List.dropWhile_cons, ih]
    split <;> rfl

/-- A character that stands for itself between double quotes, whatever the notation. -/
def isPlain (c : Char) : Bool :=
  c != '\x22' && c != '\\' && 0x20 ≤ c.toNat && c != '\x7f'

end SparkTrail.Text
