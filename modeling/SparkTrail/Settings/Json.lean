import SparkTrail.Json.Reader
import SparkTrail.Settings.Basic

/-! Settings in JSON. -/
namespace SparkTrail.Settings

/-- The settings that a JSON text describes. -/
def ofJson (text : String) : Except Error Settings :=
  match (Json.read? text).bind (ofData? Json.convention) with
  | some settings => return settings
  | none => throw (.parse "not a JSON document of settings")

/-- Settings as a JSON text, one field per line. -/
def toJson (s : Settings) : String :=
  "\x7b\n  \x22verbose\x22: " ++ toString s.verbose ++
    ",\n  \x22pool\x22: \x7b\n    \x22capacity\x22: " ++ toString s.pool.capacity ++
    "\n  \x7d,\n  \x22logging\x22: \x7b\n    \x22level\x22: \x22" ++ s.logging.level.name ++
    "\x22,\n    \x22log_to_console\x22: " ++ toString s.logging.toConsole ++ "\n  \x7d\n\x7d"

end SparkTrail.Settings
