/-
# What can go wrong with a query

Key definitions: `QueryError`, `QueryError.message`.
-/

namespace MarkupRules.Query

/-- Why a query does not compile or has no value. -/
inductive QueryError where
  /-- The text is not an expression; the position counts bytes. -/
  | syntaxAt (position : Nat) (problem : String)
  /-- The dialect has no such function. -/
  | unknownFunction (name : String)
  /-- A function does not take that many arguments. -/
  | arity (name expected : String) (given : Nat)
  /-- A variable has no value. -/
  | unboundVariable (name : String)
  /-- A label of a name is not bound to a namespace. -/
  | unknownLabel (label : String)
  /-- A set of nodes is needed where a value of another type stands. -/
  | notNodes (found : String)
  /-- Expressions are nested too deeply. -/
  | tooDeep (limit : Nat)
  deriving DecidableEq, Repr

namespace QueryError

/-- An error in words. -/
def message : QueryError → String
  | syntaxAt position problem =>
    "Syntax error at offset " ++ toString position ++ ": " ++ problem
  | unknownFunction name => "Unknown function '" ++ name ++ "'"
  | arity name expected given =>
    "Function '" ++ name ++ "' expects " ++ expected ++ " argument(s), got " ++ toString given
  | unboundVariable name => "Variable '$" ++ name ++ "' is not bound"
  | unknownLabel label => "Namespace prefix '" ++ label ++ "' is not declared"
  | notNodes found => "Expected a node-set, got " ++ found
  | tooDeep limit => "Expression nesting exceeds " ++ toString limit ++ " levels"

end QueryError

end MarkupRules.Query
