/-
# Chains of stages

A pipeline runs stages one after the other, each on what the one before made. Every stage sees a
document with the locator of the first one, so that references are resolved against the place
of the schema, whatever a stage does to the locator.

Key definitions: `Step`, `PipelineError`, `Pipeline.run`, `Engine`.
-/
import MarkupRules.Schema.Catalogue

namespace MarkupRules.Schema

open Markup (Document)

/-- A stage that was found under an identifier, with the parameters it runs with. -/
structure Step where
  /-- The identifier. -/
  id : String
  /-- The stage. -/
  stage : Stage
  /-- The parameters. -/
  parameters : Parameters

namespace Step

/-- A stage without parameters. -/
def of (id : String) (stage : Stage) : Step :=
  ⟨id, stage, .empty⟩

/-- Sets one parameter. -/
def setParameter (s : Step) (name : String) (value : Scalar) : Step :=
  { s with parameters := s.parameters.insert name value }

/-- Sets several parameters. -/
def withParameters (s : Step) (parameters : Parameters) : Step :=
  { s with parameters := s.parameters.merge parameters }

/-- What the stage makes of a document with its parameters. -/
def apply (s : Step) (d : Document) : Except StageError Document :=
  s.stage.transform d s.parameters

end Step

/-- The failure of a stage with its place in the pipeline. -/
structure PipelineError where
  /-- The number of the stage, counted from zero. -/
  index : Nat
  /-- The identifier of the stage. -/
  stage : String
  /-- Why it failed. -/
  cause : StageError

namespace PipelineError

/-- An error in words. -/
def message (e : PipelineError) : String :=
  "stage " ++ toString e.index ++ " ('" ++ e.stage ++ "') failed: " ++ e.cause.message

/-- The texts of an error and of the error that caused it. -/
def causes (e : PipelineError) : List String :=
  [e.message, e.cause.message]

end PipelineError

/-- Stages in the order in which they run. -/
abbrev Pipeline := List Step

namespace Pipeline

/-- Runs stages, of which the first has the given number. -/
def runFrom : Nat → Pipeline → Document → Except PipelineError Document
  | _, [], d => .ok d
  | index, s :: rest, d =>
    match s.apply d with
    | .ok made => runFrom (index + 1) rest (made.withOrigin d.origin)
    | .error cause => .error ⟨index, s.id, cause⟩

/-- Runs a document through all stages; the first that fails ends the run. -/
def run (p : Pipeline) (d : Document) : Except PipelineError Document :=
  runFrom 0 p d

end Pipeline

/-- Finds stages for compilers, by a resolver if it has one. -/
structure Engine where
  /-- The resolver. -/
  resolver : Option Resolver

namespace Engine

/-- An engine without a resolver. -/
def new : Engine := ⟨none⟩

/-- Uses another resolver. -/
def setResolver (_ : Engine) (resolver : Resolver) : Engine :=
  ⟨some resolver⟩

/-- Uses the standard catalogue unless there is a resolver, and says whether it is used. -/
def installStandard (e : Engine) (files : Files) : Engine × Bool :=
  match e.resolver with
  | some _ => (e, false)
  | none => (⟨some (Catalogue.standard files).resolve⟩, true)

/-- The stage of an identifier with options as its parameters. -/
def step (e : Engine) (id : String) (options : Parameters) : Except StageError Step :=
  match e.resolver with
  | none => .error (.notFound id)
  | some resolve =>
    match resolve id with
    | .ok stage => .ok ((Step.of id stage).withParameters options)
    | .error cause => .error cause

end Engine

end MarkupRules.Schema
