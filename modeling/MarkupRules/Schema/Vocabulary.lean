/-
# The vocabulary of schemas

A schema is a document of elements in one namespace. This module names that namespace and asks
the questions about single elements that all stages share.

Key definitions: `Schema.uri`, `Schema.isTerm`, `Schema.parts`, `Schema.isAbstract`.
-/
import MarkupRules.Markup.Tree

namespace MarkupRules.Schema

open Markup (Tree)

/-- The namespace of the elements of a schema. -/
def uri : String := "http://purl.oclc.org/dsdl/schematron"

/-- Whether a tree is the schema element of the given local part. -/
def isTerm (t : Tree) (localPart : String) : Bool :=
  t.isElement uri localPart

/-- The child elements that are schema elements of the given local part. -/
def parts (t : Tree) (localPart : String) : List Tree :=
  t.childElements.filter fun c => isTerm c localPart

/-- Whether an element is marked as abstract. -/
def isAbstract (t : Tree) : Bool :=
  t.attribute? "abstract" == some "true"

end MarkupRules.Schema
