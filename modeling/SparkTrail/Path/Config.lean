import SparkTrail.Path.Basic

/-! The path of a kind of particle, as its description gives it. A description without a usable path
is no error: the particles then move freely, and the reason is reported on request. -/
namespace SparkTrail

/-- The part of a description that is about the path. -/
structure PathConfig where
  path : Option String
  deriving DecidableEq, Repr, Inhabited

/-- Why there is no path. -/
inductive PathFault where
  | missing
  | blank
  | invalid (source : String) (error : Expr.Error)
  deriving DecidableEq, Repr

/-- The message for the user. -/
def PathFault.message : PathFault → String
  | .missing => "Path particle is missing a 'path' expression"
  | .blank => "Path particle has an empty 'path' expression"
  | .invalid source error => s!"Failed to compile path '{source}': {error.message}"

/-- A message with the part of the program that it comes from. -/
structure Report where
  target : String
  message : String
  deriving DecidableEq, Repr

namespace PathConfig

/-- The path that a description gives. -/
def compile (config : Option PathConfig) : Except PathFault Path :=
  match config.bind (·.path) with
  | none => throw .missing
  | some source =>
    if (Text.trim source.toList).isEmpty then throw .blank
    else
      match Path.compile source with
      | .ok path => return path
      | .error error => throw (.invalid source error)

/-- The path that a description gives, if it gives one, and what there is to report: the reason why
there is none, if reports are wanted. -/
def prepare (config : Option PathConfig) (verbose : Bool) : Option Path × List Report :=
  match compile config with
  | .ok path => (some path, [])
  | .error fault => (none, if verbose then [⟨"path_particle", fault.message⟩] else [])

end PathConfig

end SparkTrail
