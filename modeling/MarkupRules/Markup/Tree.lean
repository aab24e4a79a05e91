/-
# Trees and forests

A tree is a node with everything below it, free of the table that a document keeps its nodes in.
What rearranges documents works on trees: `Document.subtree` takes a tree out of a document and
`Document.ofForest` plants a list of trees in a new one, where character data that comes to stand
next to character data is merged.

Key definitions: `Tree`, `Document.tree`, `Document.subtree`, `Document.ofForest`.
-/
import MarkupRules.Markup.Edit

namespace MarkupRules.Markup

/-- A node with everything below it. -/
inductive Tree where
  /-- A node and the trees below it in order. -/
  | node (payload : Payload) (children : List Tree)

instance : Inhabited Tree := ⟨.node .document []⟩

namespace Tree

/-- What the node at the top is. -/
def payload : Tree → Payload
  | node p _ => p

/-- The trees below the node at the top. -/
def children : Tree → List Tree
  | node _ ts => ts

/-- The element at the top, if it is one. -/
def element? (t : Tree) : Option Element :=
  match t.payload with
  | .element e => some e
  | _ => none

/-- Whether the top is an element of the given namespace and local part. -/
def isElement (t : Tree) (uri localPart : String) : Bool :=
  match t.element? with
  | some e => e.name.isIn uri localPart
  | none => false

/-- The value of an attribute in no namespace of the element at the top. -/
def attribute? (t : Tree) (localPart : String) : Option String :=
  t.element?.bind fun e => e.attribute? localPart

/-- The trees below the top that are elements. -/
def childElements (t : Tree) : List Tree :=
  t.children.filter fun c => c.element?.isSome

/-- The first element below the top. -/
def documentElement? (t : Tree) : Option Tree :=
  t.childElements.head?

mutual

/-- A tree and all trees inside it in document order. -/
def subtrees : Tree → List Tree
  | node p ts => node p ts :: subtreesOfAll ts

/-- The trees of a forest and all trees inside them in document order. -/
def subtreesOfAll : List Tree → List Tree
  | [] => []
  | t :: ts => subtrees t ++ subtreesOfAll ts

end

/-- All trees below the top in document order. -/
def descendants (t : Tree) : List Tree :=
  subtreesOfAll t.children

/-- The character data of a node. -/
def ownText (t : Tree) : String :=
  match t.payload with
  | .text s => s
  | _ => ""

/-- The text of a tree: all character data below a document node or element, and the content
itself of any other node. -/
def stringValue (t : Tree) : String :=
  match t.payload with
  | .text s => s
  | .comment s => s
  | .instruction _ s => s
  | .document => String.join (t.descendants.map ownText)
  | .element _ => String.join (t.descendants.map ownText)

end Tree

namespace Document

/-- A node of a document with what is below it, at most the given number of levels. -/
def subtreeDeep (d : Document) : Nat → NodeId → Tree
  | 0, n => .node (d.payload n) []
  | levels + 1, n => .node (d.payload n) ((d.children n).map (subtreeDeep d levels))

/-- A node of a document with everything below it. -/
def subtree (d : Document) (n : NodeId) : Tree :=
  d.subtreeDeep d.size n

/-- The whole document as a tree. -/
def tree (d : Document) : Tree :=
  d.subtree root

mutual

/-- Adds a tree as the last child of `parent`. Character data joins a text node in front of it,
and of a document node only the trees below it are added. -/
def plant (d : Document) (parent : NodeId) : Tree → Document
  | .node payload ts =>
    match payload with
    | .text s => (d.appendText parent s).1
    | .document => plantAll d parent ts
    | p =>
      let (d, id) := d.push parent p
      plantAll d id ts

/-- Adds the trees of a forest one after the other. -/
def plantAll (d : Document) (parent : NodeId) : List Tree → Document
  | [] => d
  | t :: ts => plantAll (plant d parent t) parent ts

end

/-- The document of a forest. It has no locator. -/
def ofForest (ts : List Tree) : Document :=
  plantAll empty root ts

end Document

end MarkupRules.Markup
