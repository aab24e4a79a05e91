/-
# Running a program on a document

In every pattern a node is handled by the first rule whose context matches it, and the rules fire
in the order of their nodes in the document. Variables of the program are visible everywhere,
those of a pattern in the pattern, and those of a rule at the node where it fires; they hide
parameters of the same name. All variables live on one stack that a run passes on from node to
node and from pattern to pattern: what a pattern or rule has put on it is dropped at its end.

Key definitions: `ValidationError`, `defineAll`, `OnStack`, `onStackAll`, `firstMatches`,
`runRule`, `runPattern`, `runProgram`, `validate`.
-/
import MarkupRules.Program.Reader
import MarkupRules.Query.Eval
import MarkupRules.Source
import MarkupRules.Validation.Location
import MarkupRules.Validation.Report

namespace MarkupRules.Validation

open Markup (Document)
open Program (Check Definition MessagePart Pattern Rule)
open Query (Index Place QueryError Scope)

/-- Why a document cannot be validated. -/
inductive ValidationError where
  /-- The document cannot be loaded. -/
  | load (cause : LoadError)
  /-- An expression has no value. -/
  | evaluation (source : String) (cause : QueryError)

/-- An error in words. -/
def ValidationError.message : ValidationError → String
  | load cause => "Error loading document: " ++ cause.message
  | evaluation source cause => "Error evaluating '" ++ source ++ "': " ++ cause.message

/-- The outcome of a query, with its text in the error if it has none. -/
def outcome {α : Type} (q : Query) (r : Except QueryError α) : Except ValidationError α :=
  match r with
  | .ok a => .ok a
  | .error cause => .error (.evaluation q.source cause)

/-- The scope with variables defined at a node one after the other, each with the earlier ones
in sight. -/
def defineAll (ix : Index) (p : Place) :
    List (Definition Query) → Scope → Except ValidationError Scope
  | [], scope => .ok scope
  | d :: rest, scope => do
    let v ← outcome d.value (ix.evaluate d.value p scope)
    defineAll ix p rest (scope.push d.name v)

/-- The text of a part of a message at a node. -/
def partText (ix : Index) (p : Place) (scope : Scope) :
    MessagePart Query → Except ValidationError String
  | .text content => .ok content
  | .value q => do
    let v ← outcome q (ix.evaluate q p scope)
    .ok (ix.textOf v)
  | .name q => do
    let ps ← outcome q (ix.select q p scope)
    .ok (((ps.head?.bind ix.placeName?).map Markup.Name.written).getD "")

/-- The message of a check at a node. -/
def messageText (ix : Index) (p : Place) (scope : Scope) (parts : List (MessagePart Query)) :
    Except ValidationError String := do
  let texts ← parts.mapM (partText ix p scope)
  .ok (Text.collapse (String.join texts))

/-- What a check of a rule in a pattern finds at a node. -/
def runCheck (ix : Index) (pattern : Option String) (rule : Rule Query) (p : Place)
    (scope : Scope) (c : Check Query) : Except ValidationError (List Finding) := do
  let holds ← outcome c.test (ix.test c.test p scope)
  if c.kind.fires holds then
    let message ← messageText ix p scope c.message
    .ok [{
      kind := c.kind
      notes := ⟨c.notes.id, c.notes.role <|> rule.notes.role, c.notes.flag <|> rule.notes.flag⟩
      test := c.test.source
      location := location ix.doc p
      pattern
      rule := rule.notes.id
      message }]
  else .ok []

/-- What works on the stack of variables: it takes the stack and leaves one behind. -/
abbrev OnStack (α : Type) := Scope → Except ValidationError (α × Scope)

/-- Works through a list, each item on the stack that the one before it left behind. -/
def onStackAll {α β : Type} (step : α → OnStack β) : List α → OnStack (List β)
  | [], scope => .ok ([], scope)
  | a :: rest, scope => do
    let (b, scope) ← step a scope
    let (bs, scope) ← onStackAll step rest scope
    .ok (b :: bs, scope)

/-- A rule of a pattern firing at a node. -/
def runRule (ix : Index) (pattern : Option String) (p : Place) (rule : Rule Query) :
    OnStack Firing := fun scope => do
  let mark := scope.size
  let scope ← defineAll ix p rule.definitions scope
  let findings ← rule.checks.mapM (runCheck ix pattern rule p scope)
  .ok (⟨rule.context.source, rule.notes, p, findings.flatten⟩, scope.truncate mark)

/-- The nodes that rules match, each with its rule, rule by rule. -/
def matchesOf (ix : Index) (scope : Scope) :
    List (Rule Query) → Except ValidationError (List (Place × Rule Query))
  | [] => .ok []
  | rule :: rest => do
    let ps ← outcome rule.context (ix.select rule.context (.node Document.root) scope)
    let more ← matchesOf ix scope rest
    .ok (ps.map (fun p => (p, rule)) ++ more)

/-- A list in which of several neighbours at one place only the first is left, where `before` is
the place in front of the list. -/
def keepFirst {α : Type} (before : Option Place) : List (Place × α) → List (Place × α)
  | [] => []
  | m :: rest =>
    if before = some m.1 then keepFirst before rest else m :: keepFirst (some m.1) rest

/-- Matches in document order, of several at one place the first. -/
def firstMatches {α : Type} (ix : Index) (ms : List (Place × α)) : List (Place × α) :=
  keepFirst none
    (ms.mergeSort fun a b => Index.keyLe (ix.orderKey a.1) (ix.orderKey b.1))

/-- A pattern running. -/
def runPattern (ix : Index) (pattern : Pattern Query) : OnStack PatternRun := fun scope => do
  let mark := scope.size
  let scope ← defineAll ix (.node Document.root) pattern.definitions scope
  let ms ← matchesOf ix scope pattern.rules
  let (firings, scope) ←
    onStackAll (fun m => runRule ix pattern.id m.1 m.2) (firstMatches ix ms) scope
  .ok (⟨pattern.id, pattern.title, firings⟩, scope.truncate mark)

/-- The variables that parameters are visible as. -/
def parameterScope (parameters : Option Parameters) : Scope :=
  (parameters.map Scope.ofParameters).getD .empty

/-- A program running on a document. Parameters are visible as variables. -/
def runProgram (program : Program Query) (d : Document) (parameters : Option Parameters) :
    Except ValidationError Report := do
  let ix := Index.ofDocument d
  let scope ←
    defineAll ix (.node Document.root) program.definitions (parameterScope parameters)
  let (patterns, _) ← onStackAll (runPattern ix) program.patterns scope
  .ok ⟨d, program.phase, program.title, program.context.bindings.entries, patterns⟩

/-- A program running on a document that has to be loaded. -/
def validate (files : Files) (program : Program Query) (source : Source)
    (parameters : Option Parameters) : Except ValidationError Report :=
  match source.load files with
  | .ok d => runProgram program d parameters
  | .error cause => .error (.load cause)

end MarkupRules.Validation
