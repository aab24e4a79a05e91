/-
# What can go wrong before anything is compiled

Key definitions: `SetupError`, `SetupError.message`.
-/

namespace MarkupRules

/-- Why a compiler or a search for documents cannot be set up. -/
inductive SetupError where
  /-- There is no schema to compile. -/
  | missingSchema
  /-- No dialect has the name by which a schema calls its query language. -/
  | unsupportedLanguage (token : String)
  /-- A setting has no meaning. -/
  | invalid (problem : String)
  /-- A file with settings cannot be used. -/
  | unusableFile (path problem : String)
  deriving DecidableEq, Repr

/-- An error in words. -/
def SetupError.message : SetupError → String
  | missingSchema => "A schema source is required"
  | unsupportedLanguage token => "Unsupported query language: '" ++ token ++ "'"
  | invalid problem => "Invalid configuration: " ++ problem
  | unusableFile path problem => "Failed to read configuration file " ++ path ++ ": " ++ problem

end MarkupRules
