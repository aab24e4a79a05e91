/-
# Settings of the compiler

A settings text names the phase to validate, options for the compiler, and how much is logged.
Nothing else may stand in it.

Key definitions: `Settings`, `Settings.ofText`, `Settings.load`, `Settings.apply`.
-/
import MarkupRules.Compiler
import MarkupRules.Toml.Reader

namespace MarkupRules

/-- The settings that a text can give. -/
structure Settings where
  /-- The phase to validate. -/
  phase : Option String
  /-- Options for every stage of the compiler. -/
  options : Parameters
  /-- Which log messages are kept. -/
  level : Option String

/-- Why a text gives no settings. -/
inductive SettingsError where
  /-- The text is malformed. -/
  | malformed (e : Toml.ReadError)
  /-- There is no setting with a key. -/
  | unknownKey (key : String)
  /-- The value under a key has the wrong type. -/
  | wrongType (key wanted : String)
  deriving DecidableEq, Repr

namespace SettingsError

/-- An error in words. -/
def message : SettingsError → String
  | malformed e => e.message
  | unknownKey key => "unknown field '" ++ key ++ "'"
  | wrongType key wanted => "invalid type for '" ++ key ++ "', expected " ++ wanted

end SettingsError

namespace Settings

/-- Settings that change nothing. -/
def default : Settings :=
  ⟨none, NamedList.empty, none⟩

/-- Whether nothing is set. -/
def isDefault (s : Settings) : Bool :=
  s.phase.isNone && s.options.isEmpty && s.level.isNone

/-- A value that has to be a text. -/
def readText (key : String) : Toml → Except SettingsError String
  | .text s => .ok s
  | _ => .error (.wrongType key "a string")

/-- A value that has to be a scalar. -/
def readScalar (key : String) : Toml → Except SettingsError Scalar
  | .text s => .ok (.text s)
  | .whole n => .ok (.int n)
  | .real x => .ok (.real x)
  | .bool b => .ok (.bool b)
  | _ => .error (.wrongType key "a boolean, a number or a string")

/-- The key of the only entry of a table that a moment stands for. -/
def momentKey : String := "$__toml_private_datetime"

/-- The options: a table of scalars. A moment counts as a table with its text under a key of its
own. -/
def readOptions : Toml → Except SettingsError Parameters
  | .table entries => do
    let options ← entries.mapM fun e => (readScalar e.1 e.2).map fun v => (e.1, v)
    .ok (NamedList.ofList options)
  | .moment m => .ok (NamedList.ofList [(momentKey, .text m.text)])
  | _ => .error (.wrongType "options" "a table")

/-- The log level in its table. -/
def readLevel : List (String × Toml) → Except SettingsError (Option String)
  | [] => .ok none
  | (key, v) :: rest =>
    if key = "level" then do
      let level ← readText key v
      let _ ← readLevel rest
      .ok (some level)
    else .error (.unknownKey key)

/-- The settings of the log: a table, or a list that gives the values in order. -/
def readLogging : Toml → Except SettingsError (Option String)
  | .table entries => readLevel entries
  | .list [] => .ok none
  | .list (v :: _) => (readText "level" v).map some
  | _ => .error (.wrongType "logging" "a table")

/-- Takes one entry of a settings text over. -/
def readEntry (s : Settings) (e : String × Toml) : Except SettingsError Settings :=
  if e.1 = "phase" then (readText e.1 e.2).map fun phase => ⟨some phase, s.options, s.level⟩
  else if e.1 = "options" then
    (readOptions e.2).map fun options => ⟨s.phase, options, s.level⟩
  else if e.1 = "logging" then (readLogging e.2).map fun level => ⟨s.phase, s.options, level⟩
  else .error (.unknownKey e.1)

/-- The settings that a text gives. -/
def read (text : String) : Except SettingsError Settings :=
  match Toml.read text with
  | .error e => .error (.malformed e)
  | .ok entries => entries.foldlM readEntry default

/-- The settings that a text gives, as part of a set-up. -/
def ofText (text : String) : Except SetupError Settings :=
  (read text).mapError fun e => .invalid e.message

/-- The settings in a file. -/
def load (files : Files) (path : String) : Except SetupError Settings :=
  match files.readText path with
  | .error fault => .error (.unusableFile path fault.message)
  | .ok text =>
    (ofText text).mapError fun e => .unusableFile path e.message

/-- Adds the options and the phase to a set-up. -/
def apply (s : Settings) (setup : Setup) : Setup :=
  let setup := setup.withOptions s.options
  match s.phase with
  | some phase => setup.withPhase phase
  | none => setup

end Settings

end MarkupRules
