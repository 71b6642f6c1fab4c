import SparkTrail.Proofs.Text.Reading
import SparkTrail.Toml.Reader

/-!
# Documents of leaves and records

Settings are truth values, whole numbers and names of choices, in records with fixed field names.
Such documents carry what both notations need to write them without escapes: every name is one that
can stand as a key without quotes, and every number fits in 64 bits.
-/
namespace SparkTrail

/-- A name that needs neither escapes nor, as a key, quotes. -/
structure Word where
  chars : List Char
  ne_nil : chars ≠ []
  isKey : chars.all Toml.isKeyChar = true

theorem Word.isKeyChar (w : Word) : ∀ c ∈ w.chars, Toml.isKeyChar c = true :=
  List.all_eq_true.mp w.isKey

theorem Word.start (w : Word) : ∃ c more, w.chars = c :: more ∧ Toml.isKeyChar c = true := by
  obtain ⟨c, more, hw⟩ := List.exists_cons_of_ne_nil w.ne_nil
  exact ⟨c, more, hw, w.isKeyChar c (hw ▸ List.mem_cons_self)⟩

/-- What needs no quotes as a key needs no escapes between quotes. -/
theorem Word.isPlain (w : Word) : ∀ c ∈ w.chars, Text.isPlain c = true := by
  have hcontrol : ∀ n < 0x20, Toml.isKeyChar (Char.ofNat n) = false := by decide
  intro c hmem
  have h := w.isKeyChar c hmem
  have hlow : 0x20 ≤ c.toNat := by
    refine Nat.le_of_not_lt fun hlt => ?_
    have hc := hcontrol c.toNat hlt
    rw [Char.ofNat_toNat, h] at hc
    cases hc
  have hother : c ≠ '\x22' ∧ c ≠ '\\' ∧ c ≠ '\x7f' := by
    refine ⟨?_, ?_, ?_⟩
    all_goals
      rintro rfl
      cases h
  simp [Text.isPlain, hother, hlow]

/-- A value that both notations write alike. -/
inductive Leaf where
  | bool (b : Bool)
  | nat (n : Nat) (fits : n < UInt64.size)
  | word (w : Word)

/-- A document of leaves, in records. -/
inductive Document where
  | leaf (l : Leaf)
  | record (fields : List (Word × Document))

def Leaf.data : Leaf → Data
  | .bool b => .bool b
  | .nat n _ => .number (some (.whole n))
  | .word w => .text (some (String.ofList w.chars))

def Leaf.text : Leaf → List Char
  | .bool b => (toString b).toList
  | .nat n _ => (toString n).toList
  | .word w => '\x22' :: (w.chars ++ ['\x22'])

mutual

def Document.data : Document → Data
  | .leaf l => l.data
  | .record fields => .record (Document.fields fields)

def Document.fields : List (Word × Document) → List (Option String × Data)
  | [] => []
  | (name, d) :: more => (some (String.ofList name.chars), d.data) :: Document.fields more

end

end SparkTrail
