/-
# What can go wrong in a stage

Key definitions: `ReferenceFault`, `SchemaFault`, `StageError`, `StageError.message`.
-/
import MarkupRules.Source

namespace MarkupRules.Schema

/-- Why a reference to another part of a schema leads nowhere. -/
inductive ReferenceFault where
  /-- The document it names cannot be loaded. -/
  | unloadable (cause : LoadError)
  /-- The document has no element with that identifier. -/
  | noIdentified (id : String)
  /-- The document has no element. -/
  | noElement

/-- A fault in words. -/
def ReferenceFault.message : ReferenceFault → String
  | unloadable cause => cause.message
  | noIdentified id => "no element with id '" ++ id ++ "'"
  | noElement => "document has no element"

/-- In which way a document is no proper schema. -/
inductive SchemaFault where
  /-- The document element is not a schema. -/
  | notSchema
  /-- An element lacks an attribute it needs. -/
  | missing (owner label : String)
  /-- There is no abstract rule with that identifier. -/
  | noAbstractRule (id : String)
  /-- There is no abstract pattern with that identifier. -/
  | noAbstractPattern (id : String)
  /-- A parameter for an abstract pattern has no name. -/
  | unnamedParameter (pattern : String)
  deriving DecidableEq, Repr

/-- A fault in words. -/
def SchemaFault.message : SchemaFault → String
  | notSchema => "document element must be sch:schema"
  | missing owner label => owner ++ " requires an @" ++ label ++ " attribute"
  | noAbstractRule id => "no abstract rule with id '" ++ id ++ "'"
  | noAbstractPattern id => "no abstract pattern with id '" ++ id ++ "'"
  | unnamedParameter pattern => "sch:param in pattern '" ++ pattern ++ "' has no @name"

/-- Why a stage cannot be found or does not finish. -/
inductive StageError where
  /-- No stage has that identifier. -/
  | notFound (id : String)
  /-- The stage is switched off. -/
  | disabled (id : String)
  /-- A reference leads nowhere. -/
  | badReference (reference : String) (fault : ReferenceFault)
  /-- References lead back to where they started. -/
  | circular (reference : String)
  /-- The document is no proper schema. -/
  | invalidSchema (fault : SchemaFault)
  /-- The schema does not declare the phase asked for. -/
  | unknownPhase (phase : String)

/-- An error in words. -/
def StageError.message : StageError → String
  | notFound id => "No stage registered for '" ++ id ++ "'"
  | disabled id => "Stage '" ++ id ++ "' is disabled"
  | badReference reference fault => "Cannot include '" ++ reference ++ "': " ++ fault.message
  | circular reference => "Circular reference through '" ++ reference ++ "'"
  | invalidSchema fault => "Invalid schema: " ++ fault.message
  | unknownPhase phase => "Unknown phase '" ++ phase ++ "'"

end MarkupRules.Schema
