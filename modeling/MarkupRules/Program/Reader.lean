/-
# Reading programs

A program is read from its document in one walk that also gives every expression its meaning. In
what way is left open (`Reading`): `Program.bind` compiles the expressions, so that the program
can be run.

Key definitions: `ProgramError`, `Reading`, `Program.ofTree`, `Program.bind`.
-/
import MarkupRules.Program.Writer
import MarkupRules.Query.Pattern
import MarkupRules.Schema.Language

namespace MarkupRules

open Markup (Document Tree)
open Query (QueryError)

/-- Why a document is no program that can be run. -/
inductive ProgramError where
  /-- The document element is not a program. -/
  | notProgram
  /-- An element lacks an attribute it needs. -/
  | missing (element label : String)
  /-- An expression does not compile. -/
  | expression (source : String) (cause : QueryError)
  /-- The program names no dialect. -/
  | setup (cause : SetupError)
  deriving DecidableEq, Repr

namespace ProgramError

/-- An error in words. -/
def message : ProgramError → String
  | notProgram => "Malformed validation program: document element must be a program"
  | missing element label =>
    "Malformed validation program: <" ++ element ++ "> is missing @" ++ label
  | expression source cause => "Invalid expression '" ++ source ++ "': " ++ cause.message
  | setup cause => cause.message

/-- The texts of an error and of the errors that caused it, outermost first. -/
def causes (e : ProgramError) : List String :=
  match e with
  | expression _ cause => [e.message, cause.message]
  | _ => [e.message]

end ProgramError

namespace Program

/-- What expressions and the contexts of rules are read as. -/
structure Reading (ε : Type) where
  /-- What an expression is read as. -/
  expression : String → Except QueryError ε
  /-- What the context of a rule is read as. -/
  context : String → Except QueryError ε

/-- The child elements that are program elements of the given local part. -/
def terms (t : Tree) (localPart : String) : List Tree :=
  t.childElements.filter fun c => c.isElement uri localPart

/-- The value of an attribute that an element has to have. -/
def required (t : Tree) (localPart : String) : Except ProgramError String :=
  match t.attribute? localPart with
  | some value => .ok value
  | none => .error (.missing ((t.element?.map fun e => e.name.localPart).getD "") localPart)

/-- What a text is read as, with the text in the error if it does not compile. -/
def readAs {ε : Type} (read : String → Except QueryError ε) (source : String) :
    Except ProgramError ε :=
  match read source with
  | .ok e => .ok e
  | .error cause => .error (.expression source cause)

/-- The identifier, role and flag of an element. -/
def readNotes (t : Tree) : Notes :=
  ⟨t.attribute? "id", t.attribute? "role", t.attribute? "flag"⟩

section

variable {ε : Type} (reading : Reading ε)

/-- The variable that an element defines. -/
def readDefinition (t : Tree) : Except ProgramError (Definition ε) := do
  let name ← required t "name"
  let source ← required t "select"
  let value ← readAs reading.expression source
  .ok ⟨name, value⟩

/-- The variables defined in an element. -/
def readDefinitions (t : Tree) : Except ProgramError (List (Definition ε)) :=
  (terms t "variable").mapM (readDefinition reading)

/-- The part of a message that a node stands for, if it stands for one. -/
def readPart (t : Tree) : Except ProgramError (Option (MessagePart ε)) :=
  match t.payload with
  | .text content => .ok (some (.text content))
  | .element _ =>
    if t.isElement uri "value-of" then do
      let source ← required t "select"
      let e ← readAs reading.expression source
      .ok (some (.value e))
    else if t.isElement uri "name" then do
      let e ← readAs reading.expression ((t.attribute? "path").getD ownPath)
      .ok (some (.name e))
    else .ok none
  | _ => .ok none

/-- The parts of the message of a check. -/
def readMessage (t : Tree) : Except ProgramError (List (MessagePart ε)) :=
  match (terms t "message").head? with
  | some m => do
    let parts ← m.children.mapM (readPart reading)
    .ok (parts.filterMap id)
  | none => .ok []

/-- The kind of check that an element stands for, if it stands for one. -/
def checkKind? (t : Tree) : Option CheckKind :=
  if t.isElement uri CheckKind.assertion.label then some .assertion
  else if t.isElement uri CheckKind.report.label then some .report
  else none

/-- The check of a kind that an element stands for. -/
def readCheck (kind : CheckKind) (t : Tree) : Except ProgramError (Check ε) := do
  let message ← readMessage reading t
  let source ← required t "test"
  let test ← readAs reading.expression source
  .ok ⟨kind, test, readNotes t, message⟩

/-- The checks in an element. -/
def readChecks (t : Tree) : Except ProgramError (List (Check ε)) :=
  (t.childElements.filterMap fun c => (checkKind? c).map fun kind => (kind, c)).mapM fun c =>
    readCheck reading c.1 c.2

/-- The rule that an element stands for. -/
def readRule (t : Tree) : Except ProgramError (Rule ε) := do
  let source ← required t "context"
  let checks ← readChecks reading t
  let context ← readAs reading.context source
  let definitions ← readDefinitions reading t
  .ok ⟨context, readNotes t, definitions, checks⟩

/-- The pattern that an element stands for. -/
def readPattern (t : Tree) : Except ProgramError (Pattern ε) := do
  let definitions ← readDefinitions reading t
  let rules ← (terms t "rule").mapM (readRule reading)
  .ok ⟨t.attribute? "id", t.attribute? "name", definitions, rules⟩

end

/-- The namespace that an element declares. -/
def readNamespace (t : Tree) : Except ProgramError (String × String) := do
  let label ← required t "prefix"
  let value ← required t "uri"
  .ok (label, value)

/-- The dialect that an element names. -/
def readDialect (t : Tree) : Except ProgramError Dialect :=
  match Schema.dialectOf ((t.attribute? "dialect").getD "") with
  | .ok d => .ok d
  | .error cause => .error (.setup cause)

/-- The program that a document stands for, given what texts are read as in a context. -/
def ofTree {ε : Type} (reading : Query.Context → Reading ε) (document : Tree) :
    Except ProgramError (Program ε) :=
  match document.documentElement? with
  | some t =>
    if t.isElement uri "program" then do
      let dialect ← readDialect t
      let namespaces ← (terms t "namespace").mapM readNamespace
      let r := reading (contextOf dialect namespaces)
      let definitions ← readDefinitions r t
      let patterns ← (terms t "pattern").mapM (readPattern r)
      .ok ⟨dialect, (t.attribute? "phase").getD allPatterns, t.attribute? "title", namespaces,
        definitions, patterns⟩
    else .error .notProgram
  | none => .error .notProgram

/-- Expressions are compiled in a context, those of rules as patterns. -/
def compiled (c : Query.Context) : Reading Query :=
  ⟨fun source => Query.compile source c, fun source => Query.compilePattern source c⟩

/-- The program of a document, ready to run. -/
def bind (document : Document) : Except ProgramError (Program Query) :=
  ofTree compiled document.tree

end Program

end MarkupRules
