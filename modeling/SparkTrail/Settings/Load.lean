import SparkTrail.Settings.Json
import SparkTrail.Settings.Toml

/-! Settings from files. -/
namespace SparkTrail.Settings

/-- The texts of the files that settings are looked for in, where there are such files: a TOML and a
JSON file in the working directory, and the user's own TOML file. -/
structure Files where
  toml : Option String
  json : Option String
  user : Option String
  deriving DecidableEq, Repr

/-- The settings in a file with a given text, if the file is there. -/
def ofFile (read : String → Except Error Settings) : Option String → Except Error Settings
  | some text => read text
  | none => throw (.file "no such file")

/-- The settings in the first file that has valid ones, else the default settings. -/
def load (files : Files) : Settings :=
  let found :=
    (ofFile ofToml files.toml).toOption <|> (ofFile ofJson files.json).toOption <|>
      (ofFile ofToml files.user).toOption
  found.getD default

end SparkTrail.Settings
