import SparkTrail.Proofs.Json.Pretty
import SparkTrail.Proofs.Toml.Lines
import SparkTrail.Settings.Load

/-!
# Settings that are written are read back

Both notations write the same document, JSON as it is printed and TOML as lines, and read the same
data from it, in which the settings are found again. The capacity has to fit in the 64 bits that a
capacity is read with.
-/
namespace SparkTrail

def LogLevel.word (level : LogLevel) : Word where
  chars := level.name.toList
  ne_nil := by cases level <;> decide
  isKey := by cases level <;> decide

namespace Settings

/-! ## The settings in the data -/

section

variable {c : Data.Convention} {d verbose pool logging : Data} {n : Nat}

theorem nat_whole (h : n < UInt64.size) : Data.nat? (.number (some (.whole n))) = some n := by
  have hsize : UInt64.size = 18446744073709551616 := by decide
  have hpow : Int.pow 2 64 = 18446744073709551616 := rfl
  have hfits : 0 ≤ (n : Int) ∧ (n : Int) < Int.pow 2 64 := by omega
  simp only [Data.nat?, Data.number?]
  rw [if_pos hfits, Int.toNat_natCast]

theorem level_word (level : LogLevel) : level? c (Leaf.word level.word).data = some level := by
  cases level <;> rfl

theorem pool_record (h : d.nat? = some n) :
    pool? c (.record [(some "capacity", d)]) = some ⟨n⟩ := by
  show (do return ⟨← d.nat?⟩ : Option PoolSettings) = _
  rw [h]
  rfl

theorem logging_record {level : LogLevel} (h : level? c d = some level) (b : Bool) :
    logging? c (.record [(some "level", d), (some "log_to_console", .bool b)])
      = some ⟨level, b⟩ := by
  show (do return ⟨← level? c d, b⟩ : Option LogSettings) = _
  rw [h]
  rfl

theorem ofData_record {p : PoolSettings} {l : LogSettings} (b : Bool) (hp : pool? c pool = some p)
    (hl : logging? c logging = some l) :
    ofData? c (.record [(some "verbose", .bool b), (some "pool", pool), (some "logging", logging)])
      = some ⟨b, p, l⟩ := by
  show (do return ⟨b, ← pool? c pool, ← logging? c logging⟩ : Option Settings) = _
  rw [hp, hl]
  rfl

end

/-! ## The fields -/

def Name.verbose : Word := ⟨"verbose".toList, by decide, by decide⟩

def Name.pool : Word := ⟨"pool".toList, by decide, by decide⟩

def Name.capacity : Word := ⟨"capacity".toList, by decide, by decide⟩

def Name.logging : Word := ⟨"logging".toList, by decide, by decide⟩

def Name.level : Word := ⟨"level".toList, by decide, by decide⟩

def Name.toConsole : Word := ⟨"log_to_console".toList, by decide, by decide⟩

variable (s : Settings) (h : s.pool.capacity < UInt64.size)

def fields : List (Word × Document) :=
  [(Name.verbose, .leaf (.bool s.verbose)),
    (Name.pool, .record [(Name.capacity, .leaf (.nat s.pool.capacity h))]),
    (Name.logging, .record [(Name.level, .leaf (.word s.logging.level.word)),
      (Name.toConsole, .leaf (.bool s.logging.toConsole))])]

/-- Whatever the notation leaves open, the settings are found in their own fields. -/
theorem ofData_fields (c : Data.Convention) :
    ofData? c (.record (Document.fields (s.fields h))) = some s :=
  ofData_record s.verbose (pool_record (nat_whole h))
    (logging_record (level_word s.logging.level) s.logging.toConsole)

/-! ## JSON -/

/-- In JSON the settings are written as a document. -/
theorem toJson_eq : s.toJson = String.ofList (Json.pretty 0 (.record (s.fields h))) := by
  apply String.toList_inj.mp
  unfold toJson
  simp only [String.toList_append, String.toList_ofList, fields, Json.pretty, Json.prettyFields,
    Json.field, Json.newline, Leaf.text, LogLevel.word, List.append_assoc, List.cons_append,
    List.nil_append]
  rfl

include h in
theorem ofJson_toJson : ofJson s.toJson = .ok s := by
  have hread : Json.read? s.toJson = some (.record (Document.fields (s.fields h))) := by
    rw [s.toJson_eq h]
    exact Json.read_pretty _
  rw [ofJson, hread, Option.bind_some, s.ofData_fields h]
  rfl

/-! ## TOML -/

/-- The lines of the settings, one after another. -/
theorem lines_fields : Toml.lines (s.fields h) =
    [.field Name.verbose (.bool s.verbose),
      .header Name.pool, .field Name.capacity (.nat s.pool.capacity h),
      .header Name.logging, .field Name.level (.word s.logging.level.word),
      .field Name.toConsole (.bool s.logging.toConsole)] := rfl

/-- In TOML the settings are written as lines. -/
theorem toToml_eq : s.toToml
    = String.ofList ((Toml.lines (s.fields h)).flatMap Toml.Line.text) := by
  apply String.toList_inj.mp
  unfold toToml
  rw [lines_fields]
  simp only [String.toList_append, String.toList_ofList, List.flatMap_cons, List.flatMap_nil,
    Toml.Line.text, Leaf.text, LogLevel.word, List.append_assoc, List.cons_append, List.nil_append]
  rfl

/-- The tables that the lines put together, whatever the values in them. -/
theorem steps_lines (verbose capacity level toConsole : Data) :
    List.foldlM Toml.Progress.step ⟨[], []⟩ [.assign ["verbose"] verbose, .table ["pool"],
      .assign ["capacity"] capacity, .table ["logging"], .assign ["level"] level,
      .assign ["log_to_console"] toConsole]
    = some ⟨["logging"], [("verbose", .value verbose),
        ("pool", .table .header [("capacity", .value capacity)]),
        ("logging", .table .header [("level", .value level),
          ("log_to_console", .value toConsole)])]⟩ := rfl

include h in
/-- Settings are read back from their lines in TOML. -/
theorem ofToml_toToml : ofToml s.toToml = .ok s := by
  have hread : Toml.read? s.toToml = some (.record (Document.fields (s.fields h))) := by
    have hmark : s.toToml.toList.head? ≠ some '\ufeff' := by
      rw [s.toToml_eq h, lines_fields, String.toList_ofList]
      show some 'v' ≠ some '\ufeff'
      decide
    have hstatements : Toml.statements s.toToml.toList
        = some ((Toml.lines (s.fields h)).map Toml.Line.statement) := by
      rw [s.toToml_eq h, String.toList_ofList, Toml.statements_lines]
    exact Toml.read_of_statements hmark hstatements (steps_lines _ _ _ _)
  rw [ofToml, hread, Option.bind_some, s.ofData_fields h]
  rfl

/-- Settings whose capacity fits in 64 bits are read back from the text they are written as, in both
notations. -/
theorem read_written (s : Settings) (h : s.pool.capacity < UInt64.size) :
    ofJson s.toJson = .ok s ∧ ofToml s.toToml = .ok s :=
  ⟨s.ofJson_toJson h, s.ofToml_toToml h⟩

/-- The largest capacities that the two notations have: `2 ^ 64 - 1`, and `2 ^ 63 - 1` in TOML,
whose numbers have a sign. -/
theorem read_written_largest : 18446744073709551615 < UInt64.size ∧
    ofJson (toJson ⟨true, ⟨18446744073709551615⟩, ⟨.warn, false⟩⟩)
      = .ok ⟨true, ⟨18446744073709551615⟩, ⟨.warn, false⟩⟩ ∧
    9223372036854775807 < UInt64.size ∧
    ofToml (toToml ⟨true, ⟨9223372036854775807⟩, ⟨.warn, false⟩⟩)
      = .ok ⟨true, ⟨9223372036854775807⟩, ⟨.warn, false⟩⟩ :=
  ⟨by decide, (read_written ⟨true, ⟨18446744073709551615⟩, ⟨.warn, false⟩⟩ (by decide)).1,
    by decide, (read_written ⟨true, ⟨9223372036854775807⟩, ⟨.warn, false⟩⟩ (by decide)).2⟩

end Settings

end SparkTrail
