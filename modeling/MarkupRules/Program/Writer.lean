/-
# Programs as documents

A program is kept as a document of elements in a namespace of its own. This module writes
programs with expressions as text; `MarkupRules.Program.Reader` reads them.

Key definitions: `Program.uri`, `Program.term`, `Program.valueIn`, `Program.toTree`.
-/
import MarkupRules.Markup.Tree
import MarkupRules.Program.Basic

namespace MarkupRules.Program

open Markup (Attribute Name Tree)

/-- The namespace of the elements of a program. -/
def uri : String := "urn:schematron:validation-program"

/-- The phase in which every pattern is active. -/
def allPatterns : String := "#ALL"

/-- The path of a message part that names the node at hand. -/
def ownPath : String := "."

/-- A plain attribute, if it has a value. -/
def optional (localPart : String) (value : Option String) : List Attribute :=
  (value.map fun v => Attribute.mk (Name.plain localPart) v).toList

/-- A plain attribute. -/
def given (localPart value : String) : Attribute :=
  ⟨Name.plain localPart, value⟩

/-- An element of a program. -/
def term (localPart : String) (attributes : List Attribute) (content : List Tree) : Tree :=
  .node (.element ⟨⟨some uri, none, localPart⟩, attributes, []⟩) content

/-- The value of an attribute in no namespace among some attributes. -/
def valueIn (attributes : List Attribute) (localPart : String) : Option String :=
  (attributes.find? fun a => a.isPlain localPart).map Attribute.value

section Attributes

variable {label name : String} {rest more : List Attribute}

theorem valueIn_append :
    valueIn (rest ++ more) name = (valueIn rest name).or (valueIn more name) := by
  rw [valueIn, List.find?_append, Option.map_or]
  rfl

theorem valueIn_given {value : String} : valueIn (given label value :: rest) name =
    if label = name then some value else valueIn rest name := by
  by_cases h : label = name <;> simp [valueIn, given, Attribute.isPlain, Name.plain, h]

theorem valueIn_optional {value : Option String} :
    valueIn (optional label value) name = if label = name then value else none := by
  cases value with
  | none => exact (ite_self none).symm
  | some value => exact valueIn_given

end Attributes

/-- The element of a definition. -/
def Definition.toTree (d : Definition String) : Tree :=
  term "variable" [given "name" d.name, given "select" d.value] []

/-- Text or element of a part of a message. -/
def MessagePart.toTree : MessagePart String → Tree
  | text content => .node (.text content) []
  | value expression => term "value-of" [given "select" expression] []
  | name expression => term "name" [given "path" expression] []

/-- The attributes of notes. -/
def Notes.toAttributes (n : Notes) : List Attribute :=
  optional "id" n.id ++ optional "role" n.role ++ optional "flag" n.flag

/-- The notes are found under their names. -/
theorem valueIn_notes (n : Notes) (name : String) :
    valueIn n.toAttributes name = if "id" = name then n.id
      else if "role" = name then n.role else if "flag" = name then n.flag else none := by
  rw [Notes.toAttributes, valueIn_append, valueIn_append, valueIn_optional, valueIn_optional,
    valueIn_optional]
  by_cases hid : "id" = name
  · subst hid
    simp
  · by_cases hrole : "role" = name
    · subst hrole
      simp
    · simp [hid, hrole]

/-- The element of a check. -/
def Check.toTree (c : Check String) : Tree :=
  term c.kind.label (given "test" c.test :: c.notes.toAttributes)
    [term "message" [] (c.message.map MessagePart.toTree)]

/-- The element of a rule. -/
def Rule.toTree (r : Rule String) : Tree :=
  term "rule" (given "context" r.context :: r.notes.toAttributes)
    (r.definitions.map Definition.toTree ++ r.checks.map Check.toTree)

/-- The element of a pattern. -/
def Pattern.toTree (p : Pattern String) : Tree :=
  term "pattern" (optional "id" p.id ++ optional "name" p.title)
    (p.definitions.map Definition.toTree ++ p.rules.map Rule.toTree)

/-- The element of a declared namespace. -/
def namespaceTree (n : String × String) : Tree :=
  term "namespace" [given "prefix" n.1, given "uri" n.2] []

/-- The element of a program. -/
def toTree (p : Program String) : Tree :=
  term "program"
    ([given "dialect" p.dialect.token, given "phase" p.phase] ++ optional "title" p.title)
    (p.namespaces.map namespaceTree ++ p.definitions.map Definition.toTree
      ++ p.patterns.map Pattern.toTree)

end MarkupRules.Program
