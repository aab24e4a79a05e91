/-
# Writing documents

A document is written without a declaration in front. Each start tag carries the namespace
declarations it needs: those of the element, and those that its own name and the names of its
attributes need, unless the labels are already bound to the same namespaces.

Key definitions: `escapeText`, `escapeValue`, `declarations`, `writeNode`, `writeOnto`, `toXml`.

Key theorems: `writeOnto_eq` and `toXml_eq`, a document is written node after node.
-/
import MarkupRules.Markup.Document

namespace MarkupRules.Markup

/-- One character of character data. -/
def escapeTextChar (c : Char) : List Char :=
  if c = '&' then "&amp;".toList
  else if c = '<' then "&lt;".toList
  else if c = '>' then "&gt;".toList
  else [c]

/-- One character of an attribute value. -/
def escapeValueChar (c : Char) : List Char :=
  if c = '"' then "&quot;".toList
  else if c = '\n' then "&#10;".toList
  else escapeTextChar c

/-- Character data as written. -/
def escapeText (s : String) : List Char :=
  s.toList.flatMap escapeTextChar

/-- An attribute value as written between quotes. -/
def escapeValue (s : String) : List Char :=
  s.toList.flatMap escapeValueChar

/-- The bindings in force, innermost first, and the declarations a start tag needs so far. -/
structure Declaring where
  /-- The bindings in force. -/
  scope : List Binding
  /-- The new ones among them, in order. -/
  declared : List Binding

/-- Declares a binding unless it is already in force. The label `xml` is never declared. -/
def Declaring.need (s : Declaring) (label : Option String) (uri : String) : Declaring :=
  if label = some xmlLabel then s
  else if (s.scope.find? fun b => b.label == label).map Binding.uri = some uri then s
  else ⟨⟨label, uri⟩ :: s.scope, s.declared ++ [⟨label, uri⟩]⟩

/-- What the name of an element needs: its own binding, or an empty default namespace if the
name has neither namespace nor label and a default is in force. -/
def Declaring.needName (s : Declaring) (name : Name) : Declaring :=
  match name.uri with
  | some uri => s.need name.label uri
  | none =>
    match name.label with
    | some _ => s
    | none =>
      match s.scope.find? fun b => b.label.isNone with
      | some b => if b.uri = "" then s else s.need none ""
      | none => s

/-- What the name of an attribute needs: its own binding, if it has a namespace and a label. -/
def Declaring.needAttribute (s : Declaring) (a : Attribute) : Declaring :=
  match a.name.uri, a.name.label with
  | some uri, some label => s.need (some label) uri
  | _, _ => s

/-- The declarations of a start tag under the bindings in force. -/
def declarations (scope : List Binding) (e : Element) : Declaring :=
  let own (s : Declaring) (b : Binding) := s.need b.label b.uri
  let s : Declaring := e.bindings.foldl own ⟨scope, []⟩
  e.attributes.foldl Declaring.needAttribute (s.needName e.name)

/-- A name, an equals sign and a quoted value, after a space. -/
def writePair (name value : List Char) : List Char :=
  ' ' :: name ++ '=' :: '"' :: value ++ ['"']

/-- A namespace declaration. -/
def writeBinding (b : Binding) : List Char :=
  let name :=
    match b.label with
    | some label => "xmlns:".toList ++ label.toList
    | none => "xmlns".toList
  writePair name (escapeValue b.uri)

/-- An attribute. -/
def writeAttribute (a : Attribute) : List Char :=
  writePair a.name.written.toList (escapeValue a.value)

/-- A start tag without its closing bracket. -/
def openTag (e : Element) (declared : List Binding) : List Char :=
  '<' :: e.name.written.toList ++ declared.flatMap writeBinding
    ++ e.attributes.flatMap writeAttribute

/-- A processing instruction; its content is set apart by a space. -/
def writeInstruction (target content : String) : List Char :=
  "<?".toList ++ target.toList
    ++ (if content = "" then [] else ' ' :: content.toList) ++ "?>".toList

namespace Document

/-- A node with everything below it, `fuel` levels deep, under the bindings in force. -/
def writeNode (d : Document) : Nat → List Binding → NodeId → List Char
  | 0, _, _ => []
  | fuel + 1, scope, n =>
    match d.payload n with
    | .document => []
    | .text t => escapeText t
    | .comment t => "<!--".toList ++ t.toList ++ "-->".toList
    | .instruction target content => writeInstruction target content
    | .element e =>
      let s := declarations scope e
      let start := openTag e s.declared
      if (d.children n).isEmpty then start ++ "/>".toList
      else
        let content := (d.children n).flatMap fun c => writeNode d fuel s.scope c
        start ++ '>' :: (content ++ ("</".toList ++ (e.name.written.toList ++ ['>'])))

/-- Writes a node with everything below it in front of a text. -/
def writeOnto (d : Document) : Nat → List Binding → NodeId → List Char → List Char
  | 0, _, _, rest => rest
  | fuel + 1, scope, n, rest =>
    match d.payload n with
    | .document => rest
    | .text t => escapeText t ++ rest
    | .comment t => "<!--".toList ++ (t.toList ++ ("-->".toList ++ rest))
    | .instruction target content => writeInstruction target content ++ rest
    | .element e =>
      let s := declarations scope e
      let start := openTag e s.declared
      if (d.children n).isEmpty then start ++ ("/>".toList ++ rest)
      else
        let rest := "</".toList ++ (e.name.written.toList ++ '>' :: rest)
        start ++ '>' :: (d.children n).foldr (fun c rest => writeOnto d fuel s.scope c rest) rest

/-- Writing in front of a text puts what is written before it. -/
theorem writeOnto_eq (d : Document) (fuel : Nat) (scope : List Binding) (n : NodeId)
    (rest : List Char) : d.writeOnto fuel scope n rest = d.writeNode fuel scope n ++ rest := by
  induction fuel generalizing scope n rest with
  | zero => rfl
  | succ fuel ih =>
    have hall : ∀ (scope : List Binding) (ns : List NodeId) (rest : List Char),
        ns.foldr (fun c rest => d.writeOnto fuel scope c rest) rest =
          (ns.flatMap fun c => d.writeNode fuel scope c) ++ rest := by
      intro scope ns rest
      induction ns with
      | nil => rfl
      | cons c ns ihns => rw [List.foldr_cons, ihns, ih, List.flatMap_cons, List.append_assoc]
    rw [writeOnto, writeNode]
    split
    · rfl
    · rfl
    · simp
    · rfl
    · simp only [hall]
      split <;> simp

/-- The document as text. -/
def toXml (d : Document) : String :=
  String.ofList ((d.children root).foldr (fun c rest => d.writeOnto d.size [] c rest) [])

/-- The text of a document is that of the nodes below the document node, one after the other. -/
theorem toXml_eq (d : Document) :
    d.toXml = String.ofList ((d.children root).flatMap fun c => d.writeNode d.size [] c) := by
  rw [toXml]
  congr 1
  induction d.children root with
  | nil => rfl
  | cons c ns ih => rw [List.foldr_cons, ih, writeOnto_eq, List.flatMap_cons]

end Document

end MarkupRules.Markup
