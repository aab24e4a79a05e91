/-
# Conversions between types of values, and comparison

Every value can be read as a text, a number and a truth value. Two values are compared after a
conversion that depends on their types; a set of nodes compares if one of its nodes does.

Key definitions: `Index.textOf`, `Index.numberOf`, `Index.truthOf`, `Index.compareValues`.
-/
import MarkupRules.Query.Expr
import MarkupRules.Query.Index

namespace MarkupRules.Query

open Markup (Name)

namespace Index

/-- The attribute at a place. -/
def attribute? (ix : Index) (owner : Markup.NodeId) (index : Nat) : Option Markup.Attribute :=
  (ix.doc.attributes owner)[index]?

/-- The text of a node. -/
def placeText (ix : Index) : Place → String
  | .node n => ix.doc.stringValue n
  | .attr n i =>
    match ix.attribute? n i with
    | some a => a.value
    | none => ""

/-- The name of an element or attribute; a processing instruction is named by its target. -/
def placeName? (ix : Index) : Place → Option Name
  | .attr n i => (ix.attribute? n i).map Markup.Attribute.name
  | .node n =>
    match ix.doc.payload n with
    | .element e => some e.name
    | .instruction target _ => some (Name.plain target)
    | _ => none

/-- A value as a text: a set of nodes by its first node. -/
def textOf (ix : Index) : Value → String
  | .nodes [] => ""
  | .nodes (p :: _) => ix.placeText p
  | .truth b => if b then "true" else "false"
  | .number x => Decimal.numeral x
  | .text s => s

/-- A value as a number. -/
def numberOf (ix : Index) : Value → Float
  | .number x => x
  | .truth b => Decimal.ofNat (if b then 1 else 0)
  | .text s => Decimal.ofNumeral s
  | .nodes ps => Decimal.ofNumeral (ix.textOf (.nodes ps))

end Index

/-- A value as a truth value: whether there is something. -/
def truthOf : Value → Bool
  | .nodes ps => !ps.isEmpty
  | .truth b => b
  | .number x => x != 0 && !x.isNaN
  | .text s => s != ""

/-- Whether two numbers stand in a relation. -/
def compareNumbers (op : Comparison) (a b : Float) : Bool :=
  match op with
  | .eq => a == b
  | .ne => !(a == b)
  | .lt => a < b
  | .le => a ≤ b
  | .gt => a > b
  | .ge => a ≥ b

namespace Index

/-- Whether two values that are no sets are equal: as truth values if one is, else as numbers if
one is, else as texts. -/
def equalAtoms (ix : Index) (a b : Value) : Bool :=
  match a, b with
  | .truth _, _ => truthOf a == truthOf b
  | _, .truth _ => truthOf a == truthOf b
  | .number _, _ => ix.numberOf a == ix.numberOf b
  | _, .number _ => ix.numberOf a == ix.numberOf b
  | _, _ => ix.textOf a == ix.textOf b

/-- Whether two values that are no sets stand in a relation; order is that of numbers. -/
def compareAtoms (ix : Index) (op : Comparison) (a b : Value) : Bool :=
  match op with
  | .eq => ix.equalAtoms a b
  | .ne => !ix.equalAtoms a b
  | _ => compareNumbers op (ix.numberOf a) (ix.numberOf b)

/-- The values by which a value takes part in a comparison: the texts of the nodes of a set, or
the value itself. -/
def atoms (ix : Index) : Value → List Value
  | .nodes ps => ps.map fun p => .text (ix.placeText p)
  | v => [v]

/-- The values taking part in a comparison by order: their numbers. -/
def orderAtoms (ix : Index) (op : Comparison) (values : List Value) : List Value :=
  if op.isEquality then values else values.map fun v => .number (ix.numberOf v)

/-- Whether two values stand in a relation. Against a truth value a set of nodes counts as
whether it has any. -/
def compareValues (ix : Index) (op : Comparison) (a b : Value) : Bool :=
  match a, b with
  | .nodes _, .truth _ => ix.compareAtoms op (.truth (truthOf a)) b
  | .truth _, .nodes _ => ix.compareAtoms op a (.truth (truthOf b))
  | _, _ =>
    let left := ix.orderAtoms op (ix.atoms a)
    let right := ix.orderAtoms op (ix.atoms b)
    left.any fun x => right.any fun y => ix.compareAtoms op x y

end Index

end MarkupRules.Query
