/-
# Commands

A command compiles a schema, validates documents with it, shows its dialect, or lists the
stages. What it prints is kept apart from what it reports as faulty, and its exit code tells
valid documents from invalid ones and both from errors.

Key definitions: `Outcome`, `Printed`, `validate`, `run`.
-/
import MarkupRules.CommandLine.Options
import MarkupRules.Discovery
import MarkupRules.Json.Printer
import MarkupRules.Markup.Writer
import MarkupRules.Settings
import MarkupRules.Validation.ReportJson

namespace MarkupRules.CommandLine

open Program (CheckKind)
open Validation (Finding Report ValidationError)

/-- What a run of the program leaves behind. -/
structure Outcome where
  /-- The exit code. -/
  code : Nat
  /-- The text on standard output. -/
  stdout : String
  /-- The text on standard error. -/
  stderr : String
  deriving DecidableEq, Repr

/-- What a command printed, and whether all documents were valid. -/
structure Printed where
  /-- The lines on standard output. -/
  out : List String
  /-- The lines on standard error. -/
  err : List String
  /-- Whether all documents were valid. -/
  allValid : Bool
  deriving DecidableEq, Repr

/-- Lines on standard output. -/
def Printed.ofLines (lines : List String) : Printed :=
  ⟨lines, [], true⟩

/-- One print after another. -/
def Printed.append (p q : Printed) : Printed :=
  ⟨p.out ++ q.out, p.err ++ q.err, p.allValid && q.allValid⟩

/-- Lines as one text, each with its end. -/
def textOf (lines : List String) : String :=
  String.join (lines.map (· ++ "\n"))

/-- The version of the program. -/
def version : String := "0.9.0"

/-- How the program is used. -/
def usage (program : String) : List String :=
  ["Schematron v" ++ version,
    "",
    "Usage: " ++ program ++ " <command> [options]",
    "",
    "Commands:",
    "  compile <schema>               Print the compiled validation program",
    "  validate <schema> <input>...   Validate documents, directories or glob patterns",
    "  dialect <schema>               Show the detected dialect and its stages",
    "  stages                         List registered stages",
    "  help                           Show this help message",
    "",
    "Options:",
    "  --phase <id>        Validation phase (default: the schema's defaultPhase)",
    "  --param <k=v>       Compiler option, also visible to rules as $k (repeatable)",
    "  --config <file>     TOML configuration file",
    "  --json              Print validation results as JSON",
    "",
    "Exit status: 0 when every document is valid, 1 otherwise, 2 on errors."]

/-- The settings in the file that the options name. -/
def settingsOf (files : Files) (o : Options) : Except CommandError (Option Settings) :=
  match o.settingsPath with
  | none => .ok none
  | some path =>
    match Settings.load files path with
    | .ok s => .ok (some s)
    | .error cause => .error (.settings path cause)

/-- The compiled schema that the options name. Options win over settings. -/
def compiled (files : Files) (o : Options) (settings : Option Settings) :
    Except CommandError CompiledSchema :=
  match o.positional with
  | [] => .error .noSchema
  | schema :: _ =>
    let setup := Setup.new.withSchema (.ofPath schema)
    let setup := (settings.map fun s => s.apply setup).getD setup
    let setup := setup.withOptions o.parameters
    let setup := (o.phase.map setup.withPhase).getD setup
    match setup.build files with
    | .ok c => .ok c
    | .error cause => .error (.compiling schema cause)

/-- Prints the program that a schema compiles to. -/
def compile (files : Files) (o : Options) : Except CommandError Printed := do
  let settings ← settingsOf files o
  let c ← compiled files o settings
  .ok (.ofLines [c.artifact.toXml])

/-- The name of a kind of check. -/
def kindLabel : CheckKind → String
  | .assertion => "Assert"
  | .report => "Report"

/-- A finding on one line. -/
def findingLine (f : Finding) : String :=
  "  [" ++ kindLabel f.kind ++ "] " ++ f.location ++ " " ++ f.message

/-- What is printed about a document. -/
def printResult (name : String) : Except ValidationError Report → Printed
  | .ok r => ⟨(name ++ ": " ++ r.summary) :: r.messages.map findingLine, [], r.isValid⟩
  | .error e => ⟨[], [name ++ ": " ++ e.message], false⟩

/-- The result for a document as JSON. -/
def resultJson (name : String) : Except ValidationError Report → Json
  | .ok r => r.toJson 0
  | .error e => .record [("document", .text name), ("error", .text e.message)]

/-- Whether a result says that a document is valid. -/
def isValidResult : Except ValidationError Report → Bool
  | .ok r => r.isValid
  | .error _ => false

/-- Results, printed one after the other or as one JSON list. -/
def printResults (json : Bool) (results : List (String × Except ValidationError Report)) :
    Printed :=
  if json then
    ⟨[(Json.list (results.map fun r => resultJson r.1 r.2)).pretty], [],
      results.all fun r => isValidResult r.2⟩
  else (results.map fun r => printResult r.1 r.2).foldl Printed.append (.ofLines [])

/-- Validates documents and prints what was found. -/
def validate (files : Files) (o : Options) : Except CommandError Printed := do
  let settings ← settingsOf files o
  if o.positional.length < 2 then .error .noDocument
  else
    let c ← compiled files o settings
    let program ←
      match c.program.2 with
      | .ok p => .ok p
      | .error cause => .error (.program cause)
    let sources ←
      match Discovery.standard.sources files (o.positional.drop 1) with
      | .ok sources => .ok sources
      | .error cause => .error (.setup cause)
    .ok (printResults o.json (sources.map fun s =>
      (s.systemId.getD "<input>", Validation.validate files program s (some o.parameters))))

/-- Shows the dialect of a schema and the stages that compile it. -/
def dialect (files : Files) (o : Options) : Except CommandError Printed :=
  match o.positional with
  | [] => .error .noSchema
  | schema :: _ =>
    match (Source.ofPath schema).load files with
    | .error cause => .error (.loading schema cause)
    | .ok d =>
      match Schema.dialectOfSchema d with
      | .error cause => .error (.setup cause)
      | .ok found =>
        .ok (.ofLines (("Dialect: " ++ found.label ++ " (" ++ found.token ++ ")")
          :: found.stageIds.mapIdx fun k id => "  " ++ toString (k + 1) ++ ". " ++ id))

/-- Lists the standard stages. -/
def stages (files : Files) : Printed :=
  let c := Schema.Catalogue.standard files
  .ofLines (("Registered stages (" ++ toString (NamedList.size c) ++ " total):")
    :: c.entries.map fun e =>
      "  " ++ e.1 ++ " - " ++ e.2.description ++ (if e.2.isEnabled then "" else " (disabled)"))

/-- A command that reads options. -/
def withOptions (arguments : List String) (command : Options → Except CommandError Printed) :
    Except CommandError Printed := do
  let o ← Options.read arguments
  command o

/-- What a command leaves behind: code 0 if all documents are valid, 1 if not, and 2 after an
error. -/
def outcomeOf : Except CommandError Printed → Outcome
  | .ok p => ⟨if p.allValid then 0 else 1, textOf p.out, textOf p.err⟩
  | .error e => ⟨2, "", textOf ["Error: " ++ e.message]⟩

/-- Runs the program under its name with arguments. -/
def run (files : Files) (program : String) : List String → Outcome
  | [] => ⟨0, textOf (usage program), ""⟩
  | command :: arguments =>
    if command = "compile" then outcomeOf (withOptions arguments (compile files))
    else if command = "validate" then outcomeOf (withOptions arguments (validate files))
    else if command = "dialect" then outcomeOf (withOptions arguments (dialect files))
    else if command = "stages" then outcomeOf (.ok (stages files))
    else if command = "help" ∨ command = "--help" ∨ command = "-h" then
      outcomeOf (.ok (.ofLines (usage program)))
    else ⟨2, textOf (usage program), textOf ["Unknown command: " ++ command]⟩

end MarkupRules.CommandLine
