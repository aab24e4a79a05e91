/-
# Building documents

Documents grow by nodes added at the end of the children of a node. Character data next to
character data is merged into one node. Copies come in two depths: `copyNode` takes a node
without what is below it, `graft` takes the whole subtree.

Key definitions: `push`, `appendElement`, `appendText`, `appendComment`, `setAttribute`,
`removeAttribute`, `bind`, `copyNode`, `graft`.
-/
import MarkupRules.Markup.Document

namespace MarkupRules.Markup

/-- Character data with more behind it; other nodes stay as they are. -/
def Payload.extend (more : String) : Payload → Payload
  | .text t => .text (t ++ more)
  | other => other

namespace Document

/-- The document with another locator. -/
def withOrigin (d : Document) (origin : Option String) : Document :=
  { d with origin }

/-- Adds a node as the last child of `parent`. -/
def push (d : Document) (parent : NodeId) (payload : Payload) : Document × NodeId :=
  let id := d.nodes.size
  let linked := d.nodes.modify parent fun node =>
    { node with children := node.children.push id }
  ({ d with nodes := linked.push ⟨payload, some parent, #[]⟩ }, id)

/-- Changes what a node is. -/
def modifyPayload (d : Document) (n : NodeId) (f : Payload → Payload) : Document :=
  { d with nodes := d.nodes.modify n fun node => { node with payload := f node.payload } }

/-- Changes an element; other nodes stay as they are. -/
def modifyElement (d : Document) (n : NodeId) (f : Element → Element) : Document :=
  d.modifyPayload n fun p =>
    match p with
    | .element e => .element (f e)
    | other => other

/-- Adds an element without attributes and content. -/
def appendElement (d : Document) (parent : NodeId) (name : Name) : Document × NodeId :=
  d.push parent (.element ⟨name, [], []⟩)

/-- Adds a comment. -/
def appendComment (d : Document) (parent : NodeId) (content : String) : Document × NodeId :=
  d.push parent (.comment content)

/-- Adds character data. It joins a text node that ends the children so far. -/
def appendText (d : Document) (parent : NodeId) (content : String) : Document × NodeId :=
  match d.lastChild? parent with
  | some last =>
    if d.isText last then (d.modifyPayload last (Payload.extend content), last)
    else d.push parent (.text content)
  | none => d.push parent (.text content)

/-- A list of attributes with one set: an attribute of the same expanded name keeps its place
and spelling and takes the value, otherwise the attribute goes to the end. -/
def setIn (name : Name) (value : String) : List Attribute → List Attribute
  | [] => [⟨name, value⟩]
  | a :: rest =>
    if a.name.same name then { a with value } :: rest else a :: setIn name value rest

/-- Sets an attribute of an element. -/
def setAttribute (d : Document) (n : NodeId) (name : Name) (value : String) : Document :=
  d.modifyElement n fun e => { e with attributes := setIn name value e.attributes }

/-- Removes an attribute in no namespace, and says whether there was one. -/
def removeAttribute (d : Document) (n : NodeId) (localPart : String) : Document × Bool :=
  (d.modifyElement n fun e => e.withoutAttribute localPart,
    (d.attributes n).any fun a => a.isPlain localPart)

/-- Declares a namespace on an element, unless its label is already declared there. -/
def bind (d : Document) (n : NodeId) (label : Option String) (uri : String) : Document :=
  d.modifyElement n fun e =>
    if e.bindings.any fun b => b.label == label then e
    else { e with bindings := e.bindings ++ [⟨label, uri⟩] }

/-- Copies a node without its children: an element keeps its name, attributes and bindings. A
document node has nothing to copy. -/
def copyNode (d : Document) (parent : NodeId) (source : Document) (n : NodeId) :
    Document × NodeId :=
  match source.payload n with
  | .document => (d, parent)
  | .text t => d.appendText parent t
  | p => d.push parent p

/-- Copies a node of `source` with everything below it, `fuel` levels deep. -/
def graftDeep (source : Document) : Nat → Document → NodeId → NodeId → Document × NodeId
  | 0, d, parent, _ => (d, parent)
  | fuel + 1, d, parent, n =>
    match source.payload n with
    | .document =>
      ((source.children n).foldl (fun d c => (graftDeep source fuel d parent c).1) d, parent)
    | .text t => d.appendText parent t
    | p =>
      let (d, id) := d.push parent p
      ((source.children n).foldl (fun d c => (graftDeep source fuel d id c).1) d, id)

/-- Copies a node of `source` with everything below it. Of a document node only the children
are copied, and the answer is then `parent`. -/
def graft (d : Document) (parent : NodeId) (source : Document) (n : NodeId) :
    Document × NodeId :=
  graftDeep source (source.size + 1) d parent n

end Document

end MarkupRules.Markup
