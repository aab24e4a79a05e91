/-
# From schemas to programs

A schema without references is turned into a validation program for one phase. Texts of
expressions are carried over as they are; titles are collapsed to words with single spaces, and
messages are flattened: markup in them contributes its text only, apart from the elements that
stand for values and names.

Key definitions: `schemaRule`, `schemaPattern`, `programOf`, `compile`.
-/
import MarkupRules.Schema.Phase
import MarkupRules.Text.Blank

namespace MarkupRules.Schema

open Markup (Document Tree)
open Program (CheckKind Check Definition Notes MessagePart Pattern Rule)

/-- The value of an attribute of an element that has to have it. -/
def demand (t : Tree) (localPart owner : String) : Except StageError String :=
  match t.attribute? localPart with
  | some value => .ok value
  | none => .error (.invalidSchema (.missing owner localPart))

/-- The title of an element, if it has one. -/
def titleOf (t : Tree) : Option String :=
  (parts t "title").head?.map fun title => Text.collapse title.stringValue

/-- The variable that an element defines. -/
def schemaDefinition (t : Tree) : Except StageError (Definition String) := do
  let name ← demand t "name" "sch:let"
  let value ← demand t "value" ("sch:let '" ++ name ++ "'")
  .ok ⟨name, value⟩

/-- The variables defined in an element. -/
def schemaDefinitions (t : Tree) : Except StageError (List (Definition String)) :=
  (parts t "let").mapM schemaDefinition

mutual

/-- The parts of a message in one node of a check. -/
def messageParts : Tree → Except StageError (List (MessagePart String))
  | .node payload below =>
    let t : Tree := .node payload below
    match payload with
    | .text content => .ok [.text content]
    | .element _ =>
      if isTerm t "value-of" then do
        let source ← demand t "select" "sch:value-of"
        .ok [.value source]
      else if isTerm t "name" then
        .ok [.name ((t.attribute? "path").getD Program.ownPath)]
      else messagePartsOfAll below
    | _ => .ok []

/-- The parts of a message in the nodes of a check. -/
def messagePartsOfAll : List Tree → Except StageError (List (MessagePart String))
  | [] => .ok []
  | t :: rest => do
    let here ← messageParts t
    let more ← messagePartsOfAll rest
    .ok (here ++ more)

end

/-- The identifier, role and flag of an element. -/
def schemaNotes (t : Tree) : Notes :=
  ⟨t.attribute? "id", t.attribute? "role", t.attribute? "flag"⟩

/-- The kind of check that an element stands for, if it stands for one. -/
def schemaCheckKind? (t : Tree) : Option CheckKind :=
  if isTerm t CheckKind.assertion.label then some .assertion
  else if isTerm t CheckKind.report.label then some .report
  else none

/-- The check of a kind that an element stands for. -/
def schemaCheck (kind : CheckKind) (t : Tree) : Except StageError (Check String) := do
  let test ← demand t "test" ("sch:" ++ kind.label)
  let message ← messagePartsOfAll t.children
  .ok ⟨kind, test, schemaNotes t, message⟩

/-- The checks in a rule. -/
def schemaChecks (t : Tree) : Except StageError (List (Check String)) :=
  (t.childElements.filterMap fun c => (schemaCheckKind? c).map fun kind => (kind, c)).mapM
    fun c => schemaCheck c.1 c.2

/-- The rule that an element stands for. -/
def schemaRule (t : Tree) : Except StageError (Rule String) := do
  let context ← demand t "context" "sch:rule"
  let definitions ← schemaDefinitions t
  let checks ← schemaChecks t
  .ok ⟨context, schemaNotes t, definitions, checks⟩

/-- The pattern that an element stands for, without its abstract rules. -/
def schemaPattern (t : Tree) : Except StageError (Pattern String) := do
  let definitions ← schemaDefinitions t
  let rules ← ((parts t "rule").filter fun r => !isAbstract r).mapM schemaRule
  .ok ⟨t.attribute? "id", titleOf t, definitions, rules⟩

/-- The namespace that an element declares. -/
def schemaNamespace (t : Tree) : Except StageError (String × String) := do
  let label ← demand t "prefix" "sch:ns"
  let value ← demand t "uri" "sch:ns"
  .ok (label, value)

/-- The patterns of a schema that are checked in a phase. -/
def activePatterns (schema : Tree) (phase : PhaseChoice) : List Tree :=
  (parts schema "pattern").filter fun p => !isAbstract p && phase.includes p

/-- The program of a schema element. -/
def programOf (schema : Tree) (dialect : Dialect) (parameters : Parameters) :
    Except StageError (Program String) := do
  let phase ← choosePhase schema parameters
  let namespaces ← (parts schema "ns").mapM schemaNamespace
  let ownDefinitions ← schemaDefinitions schema
  let phaseDefinitions ←
    match phase.declaration with
    | some t => schemaDefinitions t
    | none => .ok []
  let patterns ← (activePatterns schema phase).mapM schemaPattern
  .ok ⟨dialect, phase.name, titleOf schema, namespaces, ownDefinitions ++ phaseDefinitions,
    patterns⟩

/-- The document of the program of a schema. -/
def compile (dialect : Dialect) (schema : Document) (parameters : Parameters) :
    Except StageError Document :=
  match schema.tree.documentElement? with
  | some t =>
    if isTerm t "schema" then do
      let program ← programOf t dialect parameters
      .ok (Document.ofForest [program.toTree])
    else .error (.invalidSchema .notSchema)
  | none => .error (.invalidSchema .notSchema)

end MarkupRules.Schema
