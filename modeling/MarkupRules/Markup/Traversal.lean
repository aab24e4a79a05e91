/-
# Walking through a document

Descendants are listed in document order with a list of nodes still to visit: the first is taken
off and its children are put in its place. What depends on all nodes below or above a node
follows from that list or from the chain of parents.

Key definitions: `descendants`, `ancestors`, `stringValue`, `elementById?`, `lookupUri?`.
-/
import MarkupRules.Markup.Document

namespace MarkupRules.Markup.Document

/-- The pending nodes and everything below them in document order, with at most `fuel` nodes. -/
def visit (d : Document) : Nat → List NodeId → List NodeId
  | 0, _ => []
  | _ + 1, [] => []
  | fuel + 1, n :: pending => n :: visit d fuel (d.children n ++ pending)

/-- All nodes below a node in document order. -/
def descendants (d : Document) (n : NodeId) : List NodeId :=
  d.visit d.size (d.children n)

/-- The chain of nodes above a node, nearest first, with at most `fuel` nodes. -/
def climb (d : Document) : Nat → NodeId → List NodeId
  | 0, _ => []
  | fuel + 1, n =>
    match d.parent? n with
    | some p => p :: climb d fuel p
    | none => []

/-- The nodes above a node, nearest first. -/
def ancestors (d : Document) (n : NodeId) : List NodeId :=
  d.climb d.size n

/-- The character data of a text node, nothing for other nodes. -/
def ownText (d : Document) (n : NodeId) : String :=
  match d.payload n with
  | .text t => t
  | _ => ""

/-- The text of a node: all character data below the document node or an element, and the
content itself of any other node. -/
def stringValue (d : Document) (n : NodeId) : String :=
  match d.payload n with
  | .text t => t
  | .comment t => t
  | .instruction _ t => t
  | .document => String.join ((d.descendants n).map d.ownText)
  | .element _ => String.join ((d.descendants n).map d.ownText)

/-- Whether an attribute identifies its element. -/
def isIdentifier (a : Attribute) : Bool :=
  a.name.localPart == "id" && (a.name.uri.isNone || a.name.uri == some xmlUri)

/-- The first element among some nodes that is identified by a value. -/
def identifiedIn? (d : Document) (nodes : List NodeId) (value : String) : Option NodeId :=
  nodes.find? fun n => (d.attributes n).any fun a => a.value == value && isIdentifier a

/-- The first element identified by a value. -/
def elementById? (d : Document) (value : String) : Option NodeId :=
  d.identifiedIn? (d.descendants root) value

/-- The namespace bound to a label by the bindings of one element. -/
def boundUri? (bindings : List Binding) (label : Option String) : Option String :=
  (bindings.find? fun b => b.label == label).map Binding.uri

/-- The namespace bound to a label at a node, looking through the nodes above it. -/
def lookupUri? (d : Document) (n : NodeId) (label : Option String) : Option String :=
  if label = some xmlLabel then some xmlUri
  else
    (n :: d.ancestors n).findSome? fun m =>
      (d.element? m).bind fun e => boundUri? e.bindings label

end MarkupRules.Markup.Document
