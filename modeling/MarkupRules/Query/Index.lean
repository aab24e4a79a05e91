/-
# Document order

A document is indexed once for evaluation: every node gets its rank in document order and the
rank of the last node below it, so that order, `following` and `preceding` need no search.
Attributes come directly after their element.

Key definitions: `Index`, `Index.ofDocument`, `orderKey`, `sortUnique`.

Key theorem: `mem_sortUnique`, no place of a list is lost or added.
-/
import MarkupRules.Markup.Traversal
import MarkupRules.Query.Sorting
import MarkupRules.Query.Value

namespace MarkupRules.Query

open Markup (Document NodeId)

/-- A document with its nodes in document order. -/
structure Index where
  /-- The document. -/
  doc : Document
  /-- The nodes in document order. -/
  order : List NodeId
  /-- The rank of every node. -/
  ranks : Array Nat
  /-- The rank of the last node in the subtree of every node. -/
  ends : Array Nat

/-- The ranks of nodes listed from a rank on. -/
def rankFrom (ranks : Array Nat) : Nat → List NodeId → Array Nat
  | _, [] => ranks
  | r, n :: rest => rankFrom (ranks.setIfInBounds n r) (r + 1) rest

/-- Lets every subtree end where that of its last child ends, for nodes listed from the last
one to the first. -/
def extendEnds (d : Document) : Array Nat → List NodeId → Array Nat
  | ends, [] => ends
  | ends, n :: rest =>
    match d.lastChild? n with
    | some last => extendEnds d (ends.setIfInBounds n (ends.getD last 0)) rest
    | none => extendEnds d ends rest

namespace Index

/-- The index of a document. -/
def ofDocument (d : Document) : Index :=
  let order := Document.root :: d.descendants Document.root
  let ranks := rankFrom (Array.replicate d.size 0) 0 order
  { doc := d, order, ranks, ends := extendEnds d ranks order.reverse }

/-- The rank of a node. -/
def rank (ix : Index) (n : NodeId) : Nat :=
  ix.ranks.getD n 0

/-- The rank of the last node in the subtree of a node. -/
def lastRank (ix : Index) (n : NodeId) : Nat :=
  ix.ends.getD n 0

/-- The place in document order: the rank of the node or owner, and zero or one more than the
number of the attribute. -/
@[inline] def orderKey (ix : Index) (p : Place) : Nat × Nat :=
  (ix.rank p.owner, p.offset)

/-- Whether a pair of numbers is not after another in lexicographic order. -/
@[inline] def keyLe (a b : Nat × Nat) : Bool :=
  a.1 < b.1 || (a.1 == b.1 && a.2 ≤ b.2)

/-- The order of two places in the document. -/
def compareOrder (ix : Index) (a b : Place) : Ordering :=
  match compare (ix.orderKey a).1 (ix.orderKey b).1 with
  | .eq => compare (ix.orderKey a).2 (ix.orderKey b).2
  | o => o

/-- Whether a place is not after another in the document. -/
@[inline] def notAfter (ix : Index) (a b : Place) : Bool :=
  keyLe (ix.orderKey a) (ix.orderKey b)

/-- Places in document order, each once. -/
def sortUnique (ix : Index) (ps : List Place) : List Place :=
  sortUniqueBy ix.notAfter ps

theorem keyLe_iff {a b : Nat × Nat} : keyLe a b ↔ a.1 < b.1 ∨ a.1 = b.1 ∧ a.2 ≤ b.2 := by
  simp [keyLe]

theorem notAfter_trans (ix : Index) (a b c : Place) (hab : ix.notAfter a b)
    (hbc : ix.notAfter b c) : ix.notAfter a c := by
  simp only [notAfter, keyLe_iff] at *
  omega

theorem notAfter_total (ix : Index) (a b : Place) : ix.notAfter a b ∨ ix.notAfter b a := by
  simp only [notAfter, keyLe_iff]
  omega

theorem mem_sortUnique {ix : Index} {ps : List Place} {p : Place} :
    p ∈ ix.sortUnique ps ↔ p ∈ ps :=
  mem_sortUniqueBy ps

end Index

end MarkupRules.Query
