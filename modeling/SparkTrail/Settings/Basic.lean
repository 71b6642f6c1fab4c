import SparkTrail.Data

/-! The settings of the particle system. -/
namespace SparkTrail

/-- Which messages are logged: those of a level and the more serious ones. -/
inductive LogLevel where
  | trace | debug | info | warn | error
  deriving DecidableEq, Repr

/-- The settings of the particle pool. -/
structure PoolSettings where
  capacity : Nat
  deriving DecidableEq, Repr

/-- The settings of the log. -/
structure LogSettings where
  level : LogLevel
  toConsole : Bool
  deriving DecidableEq, Repr

/-- All settings. -/
structure Settings where
  verbose : Bool
  pool : PoolSettings
  logging : LogSettings
  deriving DecidableEq, Repr

/-- The name of a level in a settings file. -/
def LogLevel.name : LogLevel → String
  | .trace => "Trace"
  | .debug => "Debug"
  | .info => "Info"
  | .warn => "Warn"
  | .error => "Error"

/-- The name of a level in a log filter. -/
def LogLevel.filter : LogLevel → String
  | .trace => "trace"
  | .debug => "debug"
  | .info => "info"
  | .warn => "warn"
  | .error => "error"

/-- All levels, the least serious first. -/
def LogLevel.all : List LogLevel :=
  [.trace, .debug, .info, .warn, .error]

/-- The level with a name. -/
def LogLevel.named? (name : String) : Option LogLevel :=
  LogLevel.all.find? fun level => level.name == name

/-- Room for a thousand particles. -/
def PoolSettings.default : PoolSettings :=
  ⟨1000⟩

/-- Messages from the level `info` on, on the console. -/
def LogSettings.default : LogSettings :=
  ⟨.info, true⟩

namespace Settings

/-- Why there are no settings. The detail is for the user. -/
inductive Error where
  | file (detail : String)
  | parse (detail : String)
  | invalid (detail : String)
  deriving DecidableEq, Repr

/-- The message for the user. -/
def Error.message : Error → String
  | .file detail => "Config file error: " ++ detail
  | .parse detail => "Config parse error: " ++ detail
  | .invalid detail => "Config validation error: " ++ detail

/-- The settings where no file says otherwise. -/
def default : Settings :=
  ⟨false, .default, .default⟩

/-- Settings that can be worked with: there is room for at least one particle. -/
def validate (s : Settings) : Except Error Unit :=
  if s.pool.capacity = 0 then throw (.invalid "Pool capacity must be greater than zero")
  else return ()

/-- The level that the data is. -/
def level? (c : Data.Convention) (d : Data) : Option LogLevel := do
  LogLevel.named? (← d.choice? c.saysNothing)

/-- The pool settings that the data is. The capacity must be there. -/
def pool? (c : Data.Convention) (d : Data) : Option PoolSettings := do
  match ← c.fields? ["capacity"] d with
  | [some capacity] => return ⟨← capacity.nat?⟩
  | _ => none

/-- The log settings that the data is. Both fields must be there. -/
def logging? (c : Data.Convention) (d : Data) : Option LogSettings := do
  match ← c.fields? ["level", "log_to_console"] d with
  | [some level, some toConsole] => return ⟨← level? c level, ← toConsole.bool?⟩
  | _ => none

/-- The settings that the data is. Each of the three fields may be left out. -/
def ofData? (c : Data.Convention) (d : Data) : Option Settings := do
  match ← c.fields? ["verbose", "pool", "logging"] d with
  | [verbose, pool, logging] =>
    let verbose ← (verbose.map Data.bool?).getD (some false)
    let pool ← (pool.map (pool? c)).getD (some .default)
    let logging ← (logging.map (logging? c)).getD (some .default)
    return ⟨verbose, pool, logging⟩
  | _ => none

end Settings

end SparkTrail
