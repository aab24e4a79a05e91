/-
# Compiling schemas

A compiler is set up with a schema, options and possibly an engine of its own. Building it loads
the schema, finds the stages for its query language and runs them once. The compiled schema makes
its program when it is first needed and then keeps it.

Key definitions: `CompilationError`, `Failure`, `CompiledSchema`, `Setup`, `Setup.build`.
-/
import MarkupRules.Schema.Language
import MarkupRules.Schema.Pipeline
import MarkupRules.Validation.Cache
import MarkupRules.Validation.Run

namespace MarkupRules

open Markup (Document)
open Schema (Engine PipelineError StageError)
open Validation (Report ValidationError)

/-- Why a schema cannot be compiled. -/
inductive CompilationError where
  /-- The schema cannot be loaded. -/
  | load (cause : LoadError)
  /-- A stage cannot be found. -/
  | resolution (id : String) (cause : StageError)
  /-- A stage failed. -/
  | stage (cause : PipelineError)
  /-- What the stages made is no program that can be run. -/
  | binding (cause : ProgramError)

namespace CompilationError

/-- An error in words. -/
def message : CompilationError → String
  | load cause => "Error loading the schema: " ++ cause.message
  | resolution id cause => "Error resolving pipeline stage '" ++ id ++ "': " ++ cause.message
  | stage cause => "Error compiling schema to validation program: " ++ cause.message
  | binding cause => "Error compiling validation program: " ++ cause.message

/-- The identifier of the stage that an error is about. -/
def stage? : CompilationError → Option String
  | resolution id _ => some id
  | stage cause => some cause.stage
  | _ => none

/-- The texts of an error and of the errors that caused it, outermost first. -/
def causes (e : CompilationError) : List String :=
  e.message ::
    match e with
    | load cause => cause.causes
    | resolution _ cause => [cause.message]
    | stage cause => cause.causes
    | binding cause => cause.causes

end CompilationError

/-- Why nothing came of a schema or a document. -/
inductive Failure where
  /-- The compiler cannot be set up. -/
  | setup (cause : SetupError)
  /-- The schema cannot be compiled. -/
  | compilation (cause : CompilationError)
  /-- The document cannot be validated. -/
  | validation (cause : ValidationError)

namespace Failure

/-- A failure in words. -/
def message : Failure → String
  | setup cause => "Configuration error: " ++ cause.message
  | compilation cause => "Compilation error: " ++ cause.message
  | validation cause => "Validation error: " ++ cause.message

/-- Whether the fault lies with the set-up. -/
def isSetup : Failure → Bool
  | setup _ => true
  | _ => false

/-- Whether the fault lies with the schema. -/
def isCompilation : Failure → Bool
  | compilation _ => true
  | _ => false

/-- The texts of a failure to compile and of the errors that caused it, outermost first. -/
def causes (f : Failure) : List String :=
  f.message ::
    match f with
    | setup cause => [cause.message]
    | compilation cause => cause.causes
    | validation cause => [cause.message]

end Failure

/-- The steps of the stages with the given identifiers, all with the same options. -/
def findSteps (engine : Engine) (options : Parameters) :
    List String → Except CompilationError (List Schema.Step)
  | [] => .ok []
  | id :: rest =>
    match engine.step id options with
    | .error cause => .error (.resolution id cause)
    | .ok step => do
      let more ← findSteps engine options rest
      .ok (step :: more)

/-- What stages make of a schema. It has the locator of the schema. -/
def runStages (engine : Engine) (ids : List String) (options : Parameters) (schema : Document) :
    Except CompilationError Document := do
  let steps ← findSteps engine options ids
  match Schema.Pipeline.run steps schema with
  | .ok made => .ok (made.withOrigin schema.origin)
  | .error cause => .error (.stage cause)

/-- A schema with what the stages made of it. -/
structure CompiledSchema where
  /-- The engine that found the stages. -/
  engine : Engine
  /-- The options that all stages received. -/
  options : Parameters
  /-- The schema as loaded. -/
  schema : Document
  /-- The dialect of the schema. -/
  dialect : Dialect
  /-- The identifiers of the stages in order. -/
  stageIds : List String
  /-- What the stages made. -/
  artifact : Document
  /-- The program, once it has been needed. -/
  cache : Cache (Program Query)

namespace CompiledSchema

/-- Compiles a schema that is to be loaded. -/
def compile (files : Files) (engine : Engine) (source : Source) (options : Parameters) :
    Except Failure CompiledSchema := do
  let schema ←
    match source.load files with
    | .ok d => .ok d
    | .error cause => .error (.compilation (.load cause))
  let dialect ←
    match Schema.dialectOfSchema schema with
    | .ok d => .ok d
    | .error cause => .error (.setup cause)
  match runStages engine dialect.stageIds options schema with
  | .ok artifact => .ok ⟨engine, options, schema, dialect, dialect.stageIds, artifact, .empty⟩
  | .error cause => .error (.compilation cause)

/-- The program of the artifact, made when it is first needed. -/
def program (c : CompiledSchema) :
    CompiledSchema × Except CompilationError (Program Query) :=
  let (cache, answer) := c.cache.getOrMake fun _ =>
    match Program.bind c.artifact with
    | .ok p => .ok p
    | .error cause => .error (CompilationError.binding cause)
  ({ c with cache }, answer.result)

/-- Validates a document. Parameters are visible as variables. -/
def validate (c : CompiledSchema) (files : Files) (source : Source)
    (parameters : Option Parameters) : CompiledSchema × Except Failure Report :=
  match c.program with
  | (c, .ok p) =>
    match Validation.validate files p source parameters with
    | .ok r => (c, .ok r)
    | .error cause => (c, .error (.validation cause))
  | (c, .error cause) => (c, .error (.compilation cause))

/-- What the stages make of the schema now. -/
def recompile (c : CompiledSchema) : Except CompilationError Document :=
  runStages c.engine c.stageIds c.options c.schema

end CompiledSchema

/-- How a schema is to be compiled. -/
structure Setup where
  /-- The schema. -/
  schema : Option Source
  /-- The engine; without one the standard stages are used. -/
  engine : Option Engine
  /-- The options. -/
  options : Parameters
  /-- The phase, which comes before a phase among the options. -/
  phase : Option String

namespace Setup

/-- Nothing is set. -/
def new : Setup := ⟨none, none, .empty, none⟩

/-- Sets the schema. -/
def withSchema (s : Setup) (source : Source) : Setup :=
  { s with schema := some source }

/-- Sets the engine. -/
def withEngine (s : Setup) (engine : Engine) : Setup :=
  { s with engine := some engine }

/-- Sets the phase. -/
def withPhase (s : Setup) (phase : String) : Setup :=
  { s with phase := some phase }

/-- Sets one option. -/
def option (s : Setup) (name : String) (value : Scalar) : Setup :=
  { s with options := s.options.insert name value }

/-- Sets several options. -/
def withOptions (s : Setup) (options : Parameters) : Setup :=
  { s with options := s.options.merge options }

/-- The options that all stages receive. -/
def allOptions (s : Setup) : Parameters :=
  match s.phase with
  | some phase => s.options.insert Parameters.phaseName (.text phase)
  | none => s.options

/-- Compiles the schema. -/
def build (s : Setup) (files : Files) : Except Failure CompiledSchema :=
  match s.schema with
  | none => .error (.setup .missingSchema)
  | some source =>
    let (engine, _) := (s.engine.getD .new).installStandard files
    CompiledSchema.compile files engine source s.allOptions

end Setup

/-- Compiles a schema for a phase, or for the phase that the schema leaves to itself. -/
def compileSchema (files : Files) (source : Source) (phase : Option String) :
    Except Failure CompiledSchema :=
  let setup := Setup.new.withSchema source
  ((phase.map setup.withPhase).getD setup).build files

end MarkupRules
