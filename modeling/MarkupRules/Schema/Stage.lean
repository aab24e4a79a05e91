/-
# Stages

A stage makes a new document out of a document, under parameters of which it uses what it knows.
The stages that come with the library resolve references, expand what is abstract and compile to
a program; one more returns what it is given.

Key definitions: `Stage`, `Stage.inclusion`, `Stage.expansion`, `Stage.compilation`,
`Stage.identity`.
-/
import MarkupRules.Schema.Compilation
import MarkupRules.Schema.Expansion
import MarkupRules.Schema.Inclusion

namespace MarkupRules.Schema

open Markup (Document)

/-- A step on the way from a schema to a program. -/
structure Stage where
  /-- The name shown in listings. -/
  name : String
  /-- What the stage makes of a document. -/
  transform : Document → Parameters → Except StageError Document

namespace Stage

/-- The name of a kind of stage for a dialect. -/
def nameFor (kind : String) (dialect : Dialect) : String :=
  kind ++ " (" ++ dialect.token ++ ")"

/-- The stage that resolves references to other documents. -/
def inclusion (files : Files) (dialect : Dialect) : Stage :=
  ⟨nameFor "include" dialect, fun d _ => resolveReferences files d⟩

/-- The stage that resolves abstract rules and patterns. -/
def expansion (dialect : Dialect) : Stage :=
  ⟨nameFor "expand" dialect, fun d _ => expand d⟩

/-- The stage that compiles a schema to a program. -/
def compilation (dialect : Dialect) : Stage :=
  ⟨nameFor "compile" dialect, compile dialect⟩

/-- The stage that changes nothing. -/
def identity : Stage :=
  ⟨"identity", fun d _ => .ok d⟩

end Stage

end MarkupRules.Schema
