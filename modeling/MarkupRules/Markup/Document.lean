/-
# Documents

A document is a table of nodes that refer to each other by their position in the table. Node 0
is the document node, and new nodes are only ever added at the end, below a node that is already
there. The document also remembers the locator it was read from.

Key definitions: `Payload`, `Node`, `Document`, and the questions about one node.
-/
import MarkupRules.Markup.Name

namespace MarkupRules.Markup

/-- The position of a node in the table of its document. -/
abbrev NodeId := Nat

/-- What a node is, with its own content. -/
inductive Payload where
  /-- The document node. -/
  | document
  /-- An element. -/
  | element (content : Element)
  /-- Character data. -/
  | text (content : String)
  /-- A comment. -/
  | comment (content : String)
  /-- A processing instruction. -/
  | instruction (target content : String)
  deriving DecidableEq, Repr

/-- A node with its place in the tree. -/
structure Node where
  /-- What the node is. -/
  payload : Payload
  /-- The node above it. -/
  parent : Option NodeId
  /-- The nodes below it in order. -/
  children : Array NodeId
  deriving DecidableEq, Repr

/-- A tree of nodes and the locator it came from. -/
structure Document where
  /-- The nodes, the document node first. -/
  nodes : Array Node
  /-- The locator of the text the document came from. -/
  origin : Option String
  deriving DecidableEq, Repr

namespace Document

/-- A document without content. -/
def empty : Document :=
  ⟨#[⟨.document, none, #[]⟩], none⟩

instance : Inhabited Document := ⟨empty⟩

/-- The document node. -/
def root : NodeId := 0

/-- The number of nodes. -/
def size (d : Document) : Nat :=
  d.nodes.size

/-- What a node is; outside the table it counts as the document node. -/
@[inline] def payload (d : Document) (n : NodeId) : Payload :=
  match d.nodes[n]? with
  | some node => node.payload
  | none => .document

/-- The node above a node. -/
def parent? (d : Document) (n : NodeId) : Option NodeId :=
  d.nodes[n]?.bind Node.parent

/-- The nodes below a node in order. -/
def children (d : Document) (n : NodeId) : List NodeId :=
  match d.nodes[n]? with
  | some node => node.children.toList
  | none => []

/-- The last node below a node. -/
def lastChild? (d : Document) (n : NodeId) : Option NodeId :=
  d.nodes[n]?.bind fun node => node.children.back?

/-- Whether there is nothing below the document node. -/
def isEmpty (d : Document) : Bool :=
  (d.children root).isEmpty

/-- Whether a node is character data. -/
def isText (d : Document) (n : NodeId) : Bool :=
  match d.payload n with
  | .text _ => true
  | _ => false

/-- The element a node is, if it is one. -/
@[inline] def element? (d : Document) (n : NodeId) : Option Element :=
  match d.payload n with
  | .element e => some e
  | _ => none

/-- The name of an element. -/
@[inline] def name? (d : Document) (n : NodeId) : Option Name :=
  (d.element? n).map Element.name

/-- Whether a node is an element of the given namespace and local part. -/
def isElement (d : Document) (n : NodeId) (uri localPart : String) : Bool :=
  match d.name? n with
  | some name => name.isIn uri localPart
  | none => false

/-- The child elements of a node. -/
def childElements (d : Document) (n : NodeId) : List NodeId :=
  (d.children n).filter fun c => (d.element? c).isSome

/-- The first element below the document node. -/
def documentElement? (d : Document) : Option NodeId :=
  (d.childElements root).head?

/-- The attributes of an element; none for other nodes. -/
def attributes (d : Document) (n : NodeId) : List Attribute :=
  match d.element? n with
  | some e => e.attributes
  | none => []

/-- The value of an attribute in no namespace. -/
def attribute? (d : Document) (n : NodeId) (localPart : String) : Option String :=
  (d.element? n).bind fun e => e.attribute? localPart

end Document

end MarkupRules.Markup
