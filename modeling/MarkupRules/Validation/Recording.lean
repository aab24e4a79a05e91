/-
# Recording a validation while it runs

A recording takes down what happens at once in two forms: as the lists that are usually wanted, and
as a document, which grows by an element for every pattern that runs, every rule that fires and
everything that is found.

Key definitions: `Recording`, `Recording.start`, `Recording.activePattern`,
`Recording.firedRule`, `Recording.finding`, `recordRule`, `recordPattern`, `recordProgram`,
`record`.
-/
import MarkupRules.Validation.ReportDocument
import MarkupRules.Validation.Run

namespace MarkupRules.Validation

open Markup (Document Name NodeId)
open Program (Check Notes Pattern Rule)
open Query (Index Place Scope)

/-- Sets an attribute in no namespace, if there is a value for it. -/
def setOptional (d : Document) (n : NodeId) (localPart : String) (value : Option String) :
    Document :=
  match value with
  | some value => d.setAttribute n (Name.plain localPart) value
  | none => d

/-- Adds an element of a report and then sets its attributes one after the other. -/
def appendTerm (d : Document) (parent : NodeId) (localPart : String)
    (attributes : List (String × Option String)) : Document × NodeId :=
  let (d, id) := d.appendElement parent (Name.within reportUri "svrl" localPart)
  (attributes.foldl (fun d a => setOptional d id a.1 a.2) d, id)

/-- What has been taken down of a validation. -/
structure Recording where
  /-- The document, as far as it has grown. -/
  svrl : Document
  /-- The element of the document that grows. -/
  output : NodeId
  /-- The locator of the document that is validated. -/
  document : Option String
  /-- The phase that the program is for. -/
  phase : String
  /-- The identifiers of the patterns that ran; empty for those without one. -/
  activePatterns : Array String
  /-- The rules that fired. -/
  firedRules : Array FiredRule
  /-- What assertions found. -/
  failedAssertions : Array Finding
  /-- What reports found. -/
  successfulReports : Array Finding
  deriving DecidableEq

namespace Recording

/-- The recording of a program that is about to run. -/
def start (document : Option String) (program : Program Query) : Recording :=
  let (svrl, output) := appendTerm .empty Document.root "schematron-output"
    [("phase", some program.phase), ("title", program.title)]
  let listed := program.context.bindings.entries.filter fun n => n.1 ≠ Markup.xmlLabel
  let svrl := listed.foldl (fun svrl n =>
    (appendTerm svrl output "ns-prefix-in-attribute-values"
      [("prefix", some n.1), ("uri", some n.2)]).1) svrl
  ⟨svrl, output, document, program.phase, #[], #[], #[], #[]⟩

/-- Takes down that a pattern runs. -/
def activePattern (r : Recording) (pattern : Pattern Query) : Recording :=
  let (svrl, _) := appendTerm r.svrl r.output "active-pattern"
    [("id", pattern.id), ("name", pattern.title), ("document", r.document)]
  { r with svrl, activePatterns := r.activePatterns.push (pattern.id.getD "") }

/-- Takes down that a rule of a pattern fires at a location. -/
def firedRule (r : Recording) (pattern : Option String) (rule : Rule Query)
    (location : String) : Recording :=
  let (svrl, _) := appendTerm r.svrl r.output "fired-rule"
    [("context", some rule.context.source), ("id", rule.notes.id), ("role", rule.notes.role),
      ("flag", rule.notes.flag)]
  let fired := ⟨pattern, rule.notes.id, rule.context.source, location⟩
  { r with svrl, firedRules := r.firedRules.push fired }

/-- Takes down what a check found. -/
def finding (r : Recording) (f : Finding) : Recording :=
  let (svrl, id) := appendTerm r.svrl r.output (findingLabel f.kind)
    [("test", some f.test), ("location", some f.location), ("id", f.notes.id),
      ("role", f.notes.role), ("flag", f.notes.flag)]
  let (svrl, text) := appendTerm svrl id "text" []
  let (svrl, _) := svrl.appendText text f.message
  match f.kind with
  | .assertion => { r with svrl, failedAssertions := r.failedAssertions.push f }
  | .report => { r with svrl, successfulReports := r.successfulReports.push f }

end Recording

/-- The checks of a rule in a pattern at a node, with what each finds taken down. -/
def recordChecks (ix : Index) (pattern : Option String) (rule : Rule Query) (p : Place)
    (scope : Scope) : List (Check Query) → Recording → Except ValidationError Recording
  | [], r => .ok r
  | c :: rest, r => do
    let found ← runCheck ix pattern rule p scope c
    recordChecks ix pattern rule p scope rest (found.foldl Recording.finding r)

/-- A rule of a pattern firing at a node, with what happens taken down. -/
def recordRule (ix : Index) (pattern : Option String) (p : Place) (rule : Rule Query)
    (r : Recording) : OnStack Recording := fun scope => do
  let r := r.firedRule pattern rule (location ix.doc p)
  let mark := scope.size
  let scope ← defineAll ix p rule.definitions scope
  let r ← recordChecks ix pattern rule p scope rule.checks r
  .ok (r, scope.truncate mark)

/-- Works through a list with a recording, on the stack that each item leaves to the next. -/
def recordAll {α : Type} (step : α → Recording → OnStack Recording) :
    List α → Recording → OnStack Recording
  | [], r, scope => .ok (r, scope)
  | a :: rest, r, scope => do
    let (r, scope) ← step a r scope
    recordAll step rest r scope

/-- A pattern running, with what happens taken down. -/
def recordPattern (ix : Index) (pattern : Pattern Query) (r : Recording) :
    OnStack Recording := fun scope => do
  let r := r.activePattern pattern
  let mark := scope.size
  let scope ← defineAll ix (.node Document.root) pattern.definitions scope
  let ms ← matchesOf ix scope pattern.rules
  let (r, scope) ←
    recordAll (fun m => recordRule ix pattern.id m.1 m.2) (firstMatches ix ms) r scope
  .ok (r, scope.truncate mark)

/-- A program running on a document, with what happens taken down. -/
def recordProgram (program : Program Query) (d : Document) (parameters : Option Parameters) :
    Except ValidationError Recording := do
  let ix := Index.ofDocument d
  let r := Recording.start d.origin program
  let scope ←
    defineAll ix (.node Document.root) program.definitions (parameterScope parameters)
  let (r, _) ← recordAll (recordPattern ix) program.patterns r scope
  .ok r

/-- A program running on a document that has to be loaded, with what happens taken down. -/
def record (files : Files) (program : Program Query) (source : Source)
    (parameters : Option Parameters) : Except ValidationError Recording :=
  match source.load files with
  | .ok d => recordProgram program d parameters
  | .error cause => .error (.load cause)

end MarkupRules.Validation
