/-
# Named parameter values

Compiler options and validation parameters are scalars under names. They keep the order in
which the names first appeared, since stages and listings see them in that order. One name is
reserved for the phase to validate.

Key definitions: `Parameters`, `Parameters.phase?`, `Parameters.ofJson?`.
-/
import MarkupRules.NamedList
import MarkupRules.Scalar

namespace MarkupRules

/-- Scalars under names, in order of first mention. -/
abbrev Parameters := NamedList Scalar

namespace Parameters

/-- The name under which the phase is kept. -/
def phaseName : String := "phase"

/-- The phase asked for, if its value is a text. -/
def phase? (ps : Parameters) : Option String :=
  (ps.get? phaseName).bind Scalar.asText?

/-- The parameters written as a JSON record whose members are all scalars. -/
def ofJson? : Json → Option Parameters
  | .record members =>
    (members.mapM fun m => (Scalar.ofJson? m.2).map fun v => (m.1, v)).map NamedList.ofList
  | _ => none

end Parameters

end MarkupRules
