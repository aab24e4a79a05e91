/-
# Phases

A phase names the patterns to check. The phase asked for by a parameter comes first, then the
default of the schema; without either, every pattern is active.

Key definitions: `requestedPhase`, `PhaseChoice`, `choosePhase`.
-/
import MarkupRules.Parameters
import MarkupRules.Program.Writer
import MarkupRules.Schema.StageError
import MarkupRules.Schema.Vocabulary

namespace MarkupRules.Schema

open Markup (Tree)

/-- The phase name that leaves the choice to the schema. -/
def defaultPhase : String := "#DEFAULT"

/-- The phase that parameters ask for, if they do not leave the choice to the schema. -/
def requestedPhase (parameters : Parameters) : Option String :=
  (Parameters.phase? parameters).filter fun p => p ≠ "" && p ≠ defaultPhase

/-- The name of the phase for which a schema is compiled. -/
def phaseName (schema : Tree) (parameters : Parameters) : String :=
  (requestedPhase parameters).getD ((schema.attribute? "defaultPhase").getD Program.allPatterns)

/-- A phase with the element that declares it; none if every pattern is active. -/
structure PhaseChoice where
  /-- The name of the phase. -/
  name : String
  /-- The element that declares the phase. -/
  declaration : Option Tree

namespace PhaseChoice

/-- Whether a pattern belongs to the phase. A pattern without identifier counts as one with an
empty identifier. -/
def includes (choice : PhaseChoice) (pattern : Tree) : Bool :=
  match choice.declaration with
  | none => true
  | some phase =>
    ((parts phase "active").filterMap fun a => a.attribute? "pattern").contains
      ((pattern.attribute? "id").getD "")

end PhaseChoice

/-- The phase for which a schema is compiled. -/
def choosePhase (schema : Tree) (parameters : Parameters) : Except StageError PhaseChoice :=
  let name := phaseName schema parameters
  if name = Program.allPatterns then .ok ⟨name, none⟩
  else
    match (parts schema "phase").find? fun p => p.attribute? "id" == some name with
    | some phase => .ok ⟨name, some phase⟩
    | none => .error (.unknownPhase name)

end MarkupRules.Schema
