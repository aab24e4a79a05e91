/-
# Expressions

The syntax tree of expressions: names in it are resolved to namespaces, and calls name functions
of the library.

Key definitions: `Axis`, `NodeTest`, `Callee`, `Expr`, `Start`, `Step`.
-/
import MarkupRules.Query.Library

namespace MarkupRules.Query

/-- The relations between values. -/
inductive Comparison where
  /-- Equal. -/
  | eq
  /-- Not equal. -/
  | ne
  /-- Less. -/
  | lt
  /-- Less or equal. -/
  | le
  /-- Greater. -/
  | gt
  /-- Greater or equal. -/
  | ge
  deriving DecidableEq, Repr

/-- Whether a relation asks only for equality, and not for an order. -/
def Comparison.isEquality : Comparison → Bool
  | .eq | .ne => true
  | .lt | .le | .gt | .ge => false

/-- The operations on numbers. -/
inductive Operation where
  /-- Sum. -/
  | add
  /-- Difference. -/
  | sub
  /-- Product. -/
  | mul
  /-- Quotient. -/
  | div
  /-- Remainder. -/
  | mod
  deriving DecidableEq, Repr

/-- The directions in which a step may go from a node. -/
inductive Axis where
  /-- The nodes directly below. -/
  | child
  /-- All nodes below. -/
  | descendant
  /-- The node and all nodes below. -/
  | descendantOrSelf
  /-- The node directly above. -/
  | parent
  /-- All nodes above. -/
  | ancestor
  /-- The node and all nodes above. -/
  | ancestorOrSelf
  /-- The later children of the node above. -/
  | followingSibling
  /-- The earlier children of the node above. -/
  | precedingSibling
  /-- What comes later in the document and is not below. -/
  | following
  /-- What comes earlier in the document and is not above. -/
  | preceding
  /-- The attributes of an element. -/
  | attr
  /-- Namespace nodes, of which there are none. -/
  | nameScope
  /-- The node itself. -/
  | self
  deriving DecidableEq, Repr

namespace Axis

/-- All axes. -/
def all : List Axis :=
  [child, descendant, descendantOrSelf, parent, ancestor, ancestorOrSelf, followingSibling,
    precedingSibling, following, preceding, attr, nameScope, self]

/-- The name of an axis in expressions. -/
def label : Axis → String
  | child => "child"
  | descendant => "descendant"
  | descendantOrSelf => "descendant-or-self"
  | parent => "parent"
  | ancestor => "ancestor"
  | ancestorOrSelf => "ancestor-or-self"
  | followingSibling => "following-sibling"
  | precedingSibling => "preceding-sibling"
  | following => "following"
  | preceding => "preceding"
  | attr => "attribute"
  | nameScope => "namespace"
  | self => "self"

/-- The axis of a name. -/
def ofLabel? (name : String) : Option Axis :=
  all.find? fun a => a.label = name

/-- Whether an axis runs against document order, so that positions count backwards. -/
def isReverse : Axis → Bool
  | parent | ancestor | ancestorOrSelf | precedingSibling | preceding => true
  | _ => false

theorem ofLabel?_label (a : Axis) : ofLabel? a.label = some a := by
  cases a <;> decide

end Axis

/-- What a step demands of a node besides lying on its axis. -/
inductive NodeTest where
  /-- An expanded name. -/
  | name (uri : Option String) (localPart : String)
  /-- Any name. -/
  | anyName
  /-- Any name in a namespace. -/
  | anyNameIn (uri : String)
  /-- Nothing. -/
  | anyNode
  /-- Character data. -/
  | text
  /-- A comment. -/
  | comment
  /-- A processing instruction, possibly with a given target. -/
  | instruction (target : Option String)
  deriving DecidableEq, Repr

/-- The function that a call asks for, known by its name alone. -/
structure Callee where
  /-- The name as written. -/
  label : String
  deriving DecidableEq, Repr

mutual

/-- An expression. -/
inductive Expr where
  /-- One of two holds. -/
  | or (left right : Expr)
  /-- Both of two hold. -/
  | and (left right : Expr)
  /-- Two values compared. -/
  | compare (op : Comparison) (left right : Expr)
  /-- Two numbers combined. -/
  | arith (op : Operation) (left right : Expr)
  /-- A number with the other sign. -/
  | negate (operand : Expr)
  /-- The nodes of both sets. -/
  | union (left right : Expr)
  /-- Steps from a start. -/
  | path (start : Start) (steps : List Step)
  /-- The nodes of a set that pass predicates. -/
  | filter (primary : Expr) (predicates : List Expr)
  /-- A text. -/
  | literal (body : String)
  /-- A number. -/
  | number (value : Float)
  /-- The value of a variable. -/
  | varRef (name : String)
  /-- A function applied to arguments. -/
  | call (function : Callee) (args : List Expr)

/-- Where a path starts. -/
inductive Start where
  /-- At the document node. -/
  | root
  /-- At the context node. -/
  | context
  /-- At the nodes an expression selects. -/
  | nodes (e : Expr)

/-- A step of a path: an axis, a test, and predicates that apply in order. -/
inductive Step where
  /-- A step. -/
  | mk (axis : Axis) (test : NodeTest) (predicates : List Expr)

end

instance : Inhabited Expr := ⟨.literal ""⟩

namespace Step

/-- The direction of a step. -/
def axis : Step → Axis
  | mk a _ _ => a

/-- What a step demands of a node. -/
def test : Step → NodeTest
  | mk _ t _ => t

/-- The predicates of a step. -/
def predicates : Step → List Expr
  | mk _ _ ps => ps

/-- The step that a double slash stands for. -/
def anywhere : Step :=
  mk .descendantOrSelf .anyNode []

end Step

end MarkupRules.Query
