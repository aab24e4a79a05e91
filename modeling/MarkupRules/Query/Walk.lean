/-
# Axes and tests

The nodes along an axis come in the order of the axis: against document order for the axes that
run backwards. A test then keeps the nodes of a kind or name.

Key definitions: `Index.along`, `Index.passes`.
-/
import MarkupRules.Query.Convert

namespace MarkupRules.Query

open Markup (Document NodeId Name)

namespace Index

/-- The node above a place; the element of an attribute. -/
def parent? (ix : Index) : Place → Option NodeId
  | .node n => ix.doc.parent? n
  | .attr n _ => some n

/-- The nodes above a place, nearest first. -/
def ancestors (ix : Index) (p : Place) : List NodeId :=
  match ix.parent? p with
  | some n => n :: ix.doc.ancestors n
  | none => []

/-- The children of the node above, none for the document node. -/
def siblings (ix : Index) (n : NodeId) : List NodeId :=
  match ix.doc.parent? n with
  | some parent => ix.doc.children parent
  | none => []

/-- The rank from which nodes come after a place and are not below it. -/
def followingRank (ix : Index) : Place → Nat
  | .node n => ix.lastRank n + 1
  | .attr n _ => ix.rank n + 1

/-- The places along an axis, in the order of the axis. -/
def along (ix : Index) (axis : Axis) (p : Place) : List Place :=
  match axis, p with
  | .self, _ => [p]
  | .child, .node n => (ix.doc.children n).map .node
  | .child, .attr _ _ => []
  | .descendant, .node n => (ix.doc.descendants n).map .node
  | .descendant, .attr _ _ => []
  | .descendantOrSelf, .node n => p :: (ix.doc.descendants n).map .node
  | .descendantOrSelf, .attr _ _ => [p]
  | .parent, _ => (ix.parent? p).toList.map .node
  | .ancestor, _ => (ix.ancestors p).map .node
  | .ancestorOrSelf, _ => p :: (ix.ancestors p).map .node
  | .followingSibling, .node n => (((ix.siblings n).dropWhile (· ≠ n)).drop 1).map .node
  | .followingSibling, .attr _ _ => []
  | .precedingSibling, .node n => ((ix.siblings n).takeWhile (· ≠ n)).reverse.map .node
  | .precedingSibling, .attr _ _ => []
  | .following, _ => (ix.order.drop (ix.followingRank p)).map .node
  | .preceding, _ =>
    let rank := ix.rank p.owner
    (((ix.order.take rank).reverse).filter fun n => ix.lastRank n < rank).map .node
  | .attr, .node n => (List.range (ix.doc.attributes n).length).map (.attr n)
  | .attr, .attr _ _ => []
  | .nameScope, _ => []

/-- The name by which an axis selects a place: that of an attribute on the attribute axis, that
of an element on all others. -/
@[inline] def principalName? (ix : Index) (axis : Axis) (p : Place) : Option Name :=
  match axis, p with
  | .attr, .attr _ _ => ix.placeName? p
  | .attr, .node _ => none
  | _, .attr _ _ => none
  | _, .node n => ix.doc.name? n

/-- Whether a place found along an axis passes a test. -/
def passes (ix : Index) (axis : Axis) (test : NodeTest) (p : Place) : Bool :=
  match test with
  | .anyNode => true
  | .text =>
    match p with
    | .node n => match ix.doc.payload n with
      | .text _ => true
      | _ => false
    | .attr _ _ => false
  | .comment =>
    match p with
    | .node n => match ix.doc.payload n with
      | .comment _ => true
      | _ => false
    | .attr _ _ => false
  | .instruction wanted =>
    match p with
    | .node n => match ix.doc.payload n with
      | .instruction target _ => wanted.all (· == target)
      | _ => false
    | .attr _ _ => false
  | .anyName => (ix.principalName? axis p).isSome
  | .anyNameIn uri => (ix.principalName? axis p).any fun n => n.uri == some uri
  | .name uri localPart =>
    (ix.principalName? axis p).any fun n => n.localPart == localPart && n.uri == uri

end Index

end MarkupRules.Query
