/-
# Arguments of a command

An argument that begins with two hyphens is an option; three options take the argument after
them as their value, whatever it is. All other arguments are positional.

Key definitions: `CommandError`, `Options`, `Options.read`.
-/
import MarkupRules.Compiler

namespace MarkupRules.CommandLine

/-- Why a command cannot do its work. -/
inductive CommandError where
  /-- A parameter has no value. -/
  | noValue (argument : String)
  /-- There is no such option, or its value is missing. -/
  | unknownOption (argument : String)
  /-- No schema is named. -/
  | noSchema
  /-- No schema or no document is named. -/
  | noDocument
  /-- The settings in a file cannot be used. -/
  | settings (path : String) (cause : SetupError)
  /-- A schema cannot be loaded. -/
  | loading (path : String) (cause : LoadError)
  /-- A schema cannot be compiled. -/
  | compiling (path : String) (cause : Failure)
  /-- A compiled schema is no program. -/
  | program (cause : CompilationError)
  /-- The inputs or the query language make no sense. -/
  | setup (cause : SetupError)

namespace CommandError

/-- What failed and the texts of the errors that caused it, outermost first. -/
def causes : CommandError → List String
  | noValue argument => ["Expected name=value, got '" ++ argument ++ "'"]
  | unknownOption argument => ["Unknown or incomplete option: " ++ argument]
  | noSchema => ["Please specify a schema"]
  | noDocument => ["Please specify a schema and at least one document"]
  | settings path cause => ["Loading " ++ path, cause.message]
  | loading path cause => ("Loading " ++ path) :: cause.causes
  | compiling path cause => ("Compiling " ++ path) :: cause.causes
  | program cause => cause.causes
  | setup cause => [cause.message]

/-- An error on one line. -/
def message (e : CommandError) : String :=
  String.intercalate ": " e.causes

end CommandError

/-- What the arguments of a command say. -/
structure Options where
  /-- The phase to validate. -/
  phase : Option String
  /-- Options for the compiler, which rules see as variables. -/
  parameters : Parameters
  /-- The path of a file with settings. -/
  settingsPath : Option String
  /-- Whether results are printed as JSON. -/
  json : Bool
  /-- The positional arguments in order. -/
  positional : List String

namespace Options

/-- No arguments. -/
def none : Options := ⟨.none, .empty, .none, false, []⟩

/-- Takes over a parameter written as `name=value`. -/
def withParameter (o : Options) (argument : String) : Except CommandError Options :=
  match Text.splitAtFirst? ['='] argument.toList with
  | some (name, value) =>
    .ok { o with
      parameters := o.parameters.insert (String.ofList name) (.ofText (String.ofList value)) }
  | .none => .error (.noValue argument)

/-- Takes over an option with the argument after it, if it is one that takes a value. -/
def withValue? (o : Options) (option value : String) : Option (Except CommandError Options) :=
  if option = "--phase" then some (.ok { o with phase := some value })
  else if option = "--param" then some (o.withParameter value)
  else if option = "--config" then some (.ok { o with settingsPath := some value })
  else .none

/-- Takes over an argument that stands alone. -/
def withArgument (o : Options) (argument : String) : Except CommandError Options :=
  if argument = "--json" then .ok { o with json := true }
  else if Text.startsWith argument "--" then .error (.unknownOption argument)
  else .ok { o with positional := o.positional ++ [argument] }

/-- Takes over arguments one after the other. -/
def readFrom (o : Options) : List String → Except CommandError Options
  | [] => .ok o
  | [argument] => o.withArgument argument
  | argument :: value :: rest =>
    match o.withValue? argument value with
    | some (.ok o) => readFrom o rest
    | some (.error e) => .error e
    | .none =>
      match o.withArgument argument with
      | .ok o => readFrom o (value :: rest)
      | .error e => .error e

/-- What arguments say. -/
def read (arguments : List String) : Except CommandError Options :=
  none.readFrom arguments

end Options

end MarkupRules.CommandLine
