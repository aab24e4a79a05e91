/-
# Values and variables

An expression has a set of nodes, a truth value, a number or a text as its value. Nodes are the
nodes of a document and, addressed through their elements, attributes. Variables are kept as a
stack: a later binding hides an earlier one of the same name, and a scope ends by dropping the
bindings made since a mark.

Key definitions: `Place`, `Value`, `Scope`, `Focus`.
-/
import MarkupRules.Markup.Document
import MarkupRules.Parameters

namespace MarkupRules.Query

open Markup (NodeId)

/-- A node of a document or an attribute of an element. -/
inductive Place where
  /-- A node of the tree. -/
  | node (n : NodeId)
  /-- The attribute with the given number on an element. -/
  | attr (owner : NodeId) (index : Nat)
  deriving DecidableEq, Repr

/-- The node itself, or the element of an attribute. -/
def Place.owner : Place → NodeId
  | node n => n
  | attr n _ => n

/-- The number of a place among those of its owner: zero for the node itself, one more than the
number of the attribute for an attribute. -/
def Place.offset : Place → Nat
  | node _ => 0
  | attr _ i => i + 1

/-- The value of an expression. -/
inductive Value where
  /-- Nodes in document order, each once. -/
  | nodes (places : List Place)
  /-- A truth value. -/
  | truth (value : Bool)
  /-- A number. -/
  | number (value : Float)
  /-- A text. -/
  | text (value : String)

namespace Value

/-- The name of the type of a value. -/
def typeName : Value → String
  | nodes _ => "node-set"
  | truth _ => "boolean"
  | number _ => "number"
  | text _ => "string"

/-- The value of a parameter. -/
def ofScalar : Scalar → Value
  | .bool b => truth b
  | .int n => number (Decimal.ofInt n)
  | .real x => number x
  | .text s => text s

end Value

/-- Variables with their values, the innermost binding first. -/
structure Scope where
  /-- The bindings, innermost first. -/
  bindings : List (String × Value)

namespace Scope

/-- No variables. -/
def empty : Scope := ⟨[]⟩

/-- Binds a variable. -/
def push (s : Scope) (name : String) (value : Value) : Scope :=
  ⟨(name, value) :: s.bindings⟩

/-- The innermost value of a variable. -/
def get? (s : Scope) (name : String) : Option Value :=
  (s.bindings.find? fun b => b.1 == name).map Prod.snd

/-- The number of bindings, which marks a place in the stack. -/
def size (s : Scope) : Nat :=
  s.bindings.length

/-- Drops the bindings made since a mark. -/
def truncate (s : Scope) (mark : Nat) : Scope :=
  ⟨s.bindings.drop (s.size - mark)⟩

/-- Every parameter as a variable. -/
def ofParameters (ps : Parameters) : Scope :=
  ps.entries.foldl (fun s e => s.push e.1 (Value.ofScalar e.2)) empty

end Scope

/-- What an expression is evaluated at: a node, and its place among the nodes under
consideration. -/
structure Focus where
  /-- The context node. -/
  place : Place
  /-- The number of the node, counted from one. -/
  position : Nat
  /-- How many nodes are under consideration. -/
  size : Nat

/-- The focus on one node alone. -/
def Focus.single (place : Place) : Focus :=
  ⟨place, 1, 1⟩

end MarkupRules.Query
