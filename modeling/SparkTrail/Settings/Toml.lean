import SparkTrail.Settings.Basic
import SparkTrail.Toml.Reader

/-! Settings in TOML. -/
namespace SparkTrail.Settings

/-- The settings that a TOML text describes. -/
def ofToml (text : String) : Except Error Settings :=
  match (Toml.read? text).bind (ofData? Toml.convention) with
  | some settings => return settings
  | none => throw (.parse "not a TOML document of settings")

/-- Settings as a TOML text: the one that stands alone, then a table for each of the others. -/
def toToml (s : Settings) : String :=
  "verbose = " ++ toString s.verbose ++ "\n" ++
    "\n[pool]\ncapacity = " ++ toString s.pool.capacity ++ "\n" ++
    "\n[logging]\nlevel = \x22" ++ s.logging.level.name ++ "\x22\nlog_to_console = " ++
    toString s.logging.toConsole ++ "\n"

end SparkTrail.Settings
