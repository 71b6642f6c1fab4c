import SparkTrail.Data

/-! Tables of a TOML document while it is read: what may be added to which.

A header or a dotted key goes through tables and makes those that are not there. A table that has a
header of its own can have no second one and cannot be gone through by a dotted key. A table that
was made by a dotted key can have no header, and no other table takes a value from a dotted key. -/
namespace SparkTrail.Toml

/-- How a table came to be: by its own header, on the way of a longer header, or on the way of a
dotted key. -/
inductive Origin where
  | header
  | implied
  | dotted
  deriving DecidableEq, Repr

/-- What stands under a key: a value that is complete, a table, or a list of tables with the latest
one, which is still added to, apart from the earlier ones, of which the latest is first. -/
inductive Node where
  | value (d : Data)
  | table (origin : Origin) (entries : List (String × Node))
  | tables (latest : List (String × Node)) (earlier : List (List (String × Node)))
  deriving Inhabited

/-- The keys of a table with what stands under them, in the order they were written in. -/
abbrev Entries : Type :=
  List (String × Node)

/-- The entries with what stands under a key changed, or put at the end if there is nothing yet. -/
def change (key : String) (f : Option Node → Option Node) : Entries → Option Entries
  | [] => (f none).map fun node => [(key, node)]
  | (k, node) :: rest =>
    if k = key then (f (some node)).map fun node => (k, node) :: rest
    else ((k, node) :: ·) <$> change key f rest

/-- The entries with those of the table at the end of a way changed. -/
def descend (dotted : Bool) (f : Entries → Option Entries) : List String → Entries → Option Entries
  | [] => f
  | key :: keys =>
    change key fun
      | none => (descend dotted f keys []).map (.table (if dotted then .dotted else .implied))
      | some (.table origin entries) =>
        if dotted && (origin = .header || (keys.isEmpty && origin = .implied)) then none
        else (descend dotted f keys entries).map (.table origin)
      | some (.tables latest earlier) =>
        if dotted && keys.isEmpty then none
        else (descend dotted f keys latest).map fun latest => .tables latest earlier
      | some (.value _) => none

/-- The entries with the last step of a way taken by `f`, which is given what stands there. -/
def atEnd (dotted : Bool) (keys : List String) (f : Option Node → Option Node) (entries : Entries) :
    Option Entries :=
  match keys.getLast? with
  | some key => descend dotted (change key f) keys.dropLast entries
  | none => none

/-- The entries with a value under a dotted key that has none yet. -/
def assign (keys : List String) (d : Data) : Entries → Option Entries :=
  atEnd true keys fun
    | none => some (.value d)
    | some _ => none

/-- The entries with a table that gets its header. -/
def openTable (keys : List String) : Entries → Option Entries :=
  atEnd false keys fun
    | none => some (.table .header [])
    | some (.table .implied entries) => some (.table .header entries)
    | some _ => none

/-- The entries with one more table in a list of tables. -/
def openItem (keys : List String) : Entries → Option Entries :=
  atEnd false keys fun
    | none => some (.tables [] [])
    | some (.tables latest earlier) => some (.tables [] (latest :: earlier))
    | some _ => none

mutual

/-- What stands under a key as data. -/
def Node.toData : Node → Data
  | .value d => d
  | .table _ entries => .record (toFields entries)
  | .tables latest earlier => .list (toRecords earlier [.record (toFields latest)])

/-- Entries as the fields of a record. -/
def toFields : List (String × Node) → List (Option String × Data)
  | [] => []
  | (key, node) :: rest => (some key, node.toData) :: toFields rest

/-- The tables of a list as records, given with the last one first, before those of `later`. -/
def toRecords : List (List (String × Node)) → List Data → List Data
  | [], later => later
  | entries :: earlier, later => toRecords earlier (.record (toFields entries) :: later)

end

end SparkTrail.Toml
