/-
# Reading documents

Content is read in one pass that builds the document as it goes. The state of the pass knows the
elements that are still open, each with the bindings in force inside it. An entity in character
data is read as content in its own right, one level deeper; levels are limited, and so is the
number of references below one outermost reference. Where the text of an entity breaks off in a
start tag, the attributes read so far wait for the next tag.

Key definitions: `Open`, `Progress`, `startElement`, `takeContent`, `Document.read`.
-/
import MarkupRules.Markup.Prolog
import MarkupRules.Markup.Traversal

namespace MarkupRules.Markup

/-- The namespace reserved for declarations. -/
def xmlnsUri : String := reservedHome ++ "2000/xmlns/"

/-- The label reserved for declarations. -/
def xmlnsLabel : String := "xmlns"

/-- How deep entities may be nested. -/
def entityLevels : Nat := 10

/-- How many references there may be below one outermost reference. -/
def referenceLimit : Nat := 255

/-- An element that is not closed yet. -/
structure Open where
  /-- The node. -/
  id : NodeId
  /-- The name as written in the start tag. -/
  written : Qualified
  /-- The bindings in force inside the element. -/
  scope : List Binding

/-- The attributes of a start tag: its declarations, and the others as written. -/
structure TagContent where
  /-- The declared bindings in order. -/
  bindings : List Binding
  /-- The other attributes in order. -/
  attributes : List (Qualified × String)

/-- A start tag without attributes. -/
def TagContent.empty : TagContent := ⟨[], []⟩

/-- What has been read so far. -/
structure Progress where
  /-- The document so far. -/
  doc : Document
  /-- The open elements, innermost first. -/
  path : List Open
  /-- The references counted below the outermost reference. -/
  references : Nat
  /-- The attributes of start tags that broke off with their text. They count as the first ones
  of the next tag. -/
  pending : TagContent

namespace Progress

/-- Nothing read but what stands before the element of a document. -/
def start (d : Document) : Progress :=
  ⟨d, [], 0, .empty⟩

/-- The node that content is added to. -/
def parent (p : Progress) : NodeId :=
  match p.path with
  | e :: _ => e.id
  | [] => Document.root

/-- The bindings in force. -/
def scope (p : Progress) : List Binding :=
  match p.path with
  | e :: _ => e.scope
  | [] => []

/-- Adds a node. -/
def add (p : Progress) (payload : Payload) : Progress :=
  { p with doc := (p.doc.push p.parent payload).1 }

/-- Adds character data. -/
def addText (p : Progress) (content : List Char) : Progress :=
  { p with doc := (p.doc.appendText p.parent (String.ofList content)).1 }

end Progress

/-- Line ends in character data, given last character first: a carriage return becomes a line
feed, and a line feed behind it is dropped. It is replaced when the next character comes, or at
the end of the text. -/
def pushTextChar (before : List Char) (c : Char) (last : Bool) : List Char :=
  match before with
  | '\r' :: earlier =>
    if last ∧ c = '\r' then '\n' :: '\n' :: earlier
    else if c ≠ '\n' then c :: '\n' :: earlier
    else '\n' :: earlier
  | _ => if last ∧ c = '\r' then '\n' :: before else c :: before

/-- Counts a reference below the outermost one. -/
def countReference (nested : Bool) (references : Nat) : Except Fault Nat :=
  if !nested then .ok references
  else if references = referenceLimit then .error .entityLoop
  else .ok (references + 1)

/-- Reads the value of an entity as part of an attribute value. The count of references is passed
along. -/
abbrev ExpandValue := Nat → List Char → Except Fault (List Char × Nat)

/-- A line end or tab in an attribute value as a space. -/
def spaceOut (c : Char) : Char :=
  if c = '\n' ∨ c = '\r' ∨ c = '\t' then ' ' else c

/-- An attribute value with its references resolved and its line ends and tabs made spaces; a
referenced character stays as it is outside all entities. -/
def normalizeValue (entities : List Entity) (expand : ExpandValue) (nested : Bool) :
    Nat → ExpandValue
  | 0, references, _ => .ok ([], references)
  | _ + 1, references, [] => .ok ([], references)
  | fuel + 1, references, c :: rest =>
    if c ≠ '&' then
      if c = '\r' ∧ rest.head? = some '\n' then
        normalizeValue entities expand nested fuel references rest
      else do
        let (value, references) ← normalizeValue entities expand nested fuel references rest
        .ok (spaceOut c :: value, references)
    else do
      let (reference, rest) ← takeReference rest
      match reference with
      | .char d =>
        if nested ∧ d = '<' then .error .badValue
        else
          let (value, references) ← normalizeValue entities expand nested fuel references rest
          .ok ((if nested then spaceOut d else d) :: value, references)
      | .entity name =>
        match entityValue? entities name with
        | none => .error (.unknownEntity (String.ofList name))
        | some inner =>
          let references ← countReference nested references
          let (first, references) ← expand references inner
          let references := if nested then references else 0
          let (value, references) ← normalizeValue entities expand nested fuel references rest
          .ok (first ++ value, references)

/-- The value of an entity inside an attribute value, which may nest entities `levels` deep. -/
def expandValue (entities : List Entity) : Nat → ExpandValue
  | 0, _, _ => .error .entityLoop
  | levels + 1, references, cs =>
    normalizeValue entities (expandValue entities levels) true (cs.length + 1) references cs

/-- Adds an attribute to those of a start tag. -/
def TagContent.add (t : TagContent) (name : Qualified) (value : String) :
    Except Fault TagContent :=
  if name.label = some xmlnsLabel then
    if value = xmlnsUri then .error (.reserved value)
    else if (name.localPart = xmlLabel) ≠ (value = xmlUri) then .error (.reserved value)
    else if t.bindings.any fun b => b.label = some name.localPart then
      .error (.repeatedBinding name.localPart)
    else if value = xmlUri then .ok t
    else .ok { t with bindings := t.bindings ++ [⟨some name.localPart, value⟩] }
  else if name.localPart = xmlnsLabel then
    if value = xmlUri ∨ value = xmlnsUri then .error (.reserved value)
    else .ok { t with bindings := t.bindings ++ [⟨none, value⟩] }
  else .ok { t with attributes := t.attributes ++ [(name, value)] }

/-- The bindings in force inside an element: its own, then those around it whose labels are not
declared again. -/
def scopeWithin (own around : List Binding) : List Binding :=
  around.foldl
    (fun scope b => if scope.any fun o => o.label = b.label then scope else scope ++ [b]) own

/-- The namespace of a label in force. -/
def uriOf (scope : List Binding) (label : Option String) : Except Fault (Option String) :=
  match scope.find? fun b => b.label = label with
  | some b => .ok (some b.uri)
  | none =>
    match label with
    | some l => .error (.unknownLabel l)
    | none => .ok none

/-- The label kept for a namespace: the first one in force that is bound to it. -/
def labelFor (scope : List Binding) (uri : Option String) : Option String :=
  uri.bind fun uri =>
    if uri = xmlUri then some xmlLabel
    else (scope.find? fun b => b.uri = uri).bind Binding.label

/-- The name of an element or attribute in a namespace. -/
def nameIn (scope : List Binding) (uri : Option String) (localPart : String) : Name :=
  ⟨uri, labelFor scope uri, localPart⟩

/-- The attributes of an element with their names resolved; no expanded name may come twice. -/
def resolveAttributes (scope : List Binding) :
    List Attribute → List (Qualified × String) → Except Fault (List Attribute)
  | done, [] => .ok done
  | done, (name, value) :: rest => do
    let uri ←
      match name.label with
      | none => .ok none
      | some label => if label = xmlLabel then .ok (some xmlUri) else uriOf scope (some label)
    let resolved := nameIn scope uri name.localPart
    if done.any fun a => a.name.same resolved then .error (.repeatedAttribute name.localPart)
    else resolveAttributes scope (done ++ [⟨resolved, value⟩]) rest

/-- Adds an element to the document and, if it has content, to the open elements. -/
def startElement (p : Progress) (written : Qualified) (tag : TagContent) (isOpen : Bool) :
    Except Fault Progress := do
  let around := p.scope
  let scope := if tag.bindings = [] then around else scopeWithin tag.bindings around
  let attributes ← resolveAttributes scope [] tag.attributes
  let uri ← uriOf scope written.label
  let element : Element :=
    { name := nameIn scope uri written.localPart
      attributes
      bindings := scope.filter fun b => !around.contains b }
  let (doc, id) := p.doc.push p.parent (.element element)
  .ok { p with
    doc
    path := if isOpen then ⟨id, written, scope⟩ :: p.path else p.path
    pending := .empty }

/-- Closes the innermost open element. Attributes that no start tag took over are dropped here,
but have to be proper ones inside the element. -/
def endElement (p : Progress) (written : Qualified) : Except Fault Progress := do
  let _ ← resolveAttributes (scopeWithin p.pending.bindings p.scope) [] p.pending.attributes
  match p.path with
  | e :: path =>
    if e.written = written then .ok { p with path, pending := .empty }
    else .error (.wrongEndTag written.localPart)
  | [] => .error (.wrongEndTag written.localPart)

/-- How a start tag ends. -/
inductive TagEnd where
  /-- The element is left open. -/
  | opened
  /-- The element has no content. -/
  | closed
  /-- The text breaks off behind the name or an attribute. -/
  | cutOff
  deriving DecidableEq, Repr

/-- The rest of a start tag after its name, and how it ends. -/
def takeTag (entities : List Entity) (levels : Nat) (nested : Bool) :
    Nat → Nat → TagContent → List Char → Except Fault (TagContent × TagEnd × Nat × List Char)
  | 0, _, _, _ => .error .endOfText
  | _ + 1, references, tag, [] => .ok (tag, .cutOff, references, [])
  | fuel + 1, references, tag, first :: more =>
    match skipSpace (first :: more) with
    | '/' :: rest => (expectChar '>' rest).map fun rest => (tag, .closed, references, rest)
    | '>' :: rest => .ok (tag, .opened, references, rest)
    | [] => .error .endOfText
    | c :: rest =>
      if !Text.isSpace first then .error (.misplaced c)
      else do
        let ((name, raw), rest) ← takePair (c :: rest)
        let (value, references) ←
          normalizeValue entities (expandValue entities levels) nested (raw.length + 1)
            references raw
        let tag ← tag.add name (String.ofList value)
        takeTag entities levels nested fuel references tag rest

/-- An element after its opening bracket, up to the end of its start tag; says whether it is
left open. A start tag that breaks off makes no element, but leaves its attributes behind. -/
def takeElement (entities : List Entity) (levels : Nat) (nested : Bool) (p : Progress)
    (cs : List Char) : Except Fault (Progress × Bool × List Char) := do
  let (written, rest) ← takeQualified cs
  if written.label = some xmlnsLabel then .error (.reserved xmlnsLabel)
  else
    let (tag, ending, references, rest) ←
      takeTag entities levels nested (rest.length + 1) p.references p.pending rest
    if ending = .cutOff then .ok ({ p with references, pending := tag }, false, rest)
    else
      let isOpen := decide (ending = .opened)
      let p ← startElement { p with references } written tag isOpen
      .ok (p, isOpen, rest)

/-- Reads the value of an entity as content. -/
abbrev Expand := Progress → List Char → Except Fault Progress

/-- Character data with its references. `buffer` holds what was read since the last entity, last
character first; `raw` says that the next character is taken as it is, which holds after a
reference to a character outside all entities. -/
def takeText (entities : List Entity) (expand : Expand) (nested : Bool) :
    Nat → Progress → List Char → Bool → List Char → Except Fault Progress
  | 0, p, _, _, _ => .ok p
  | fuel + 1, p, buffer, raw, cs =>
    match cs with
    | [] => .ok (if buffer = [] then p else p.addText buffer.reverse)
    | c :: rest =>
      if c ≠ '&' then
        let buffer := if raw then c :: buffer else pushTextChar buffer c rest.isEmpty
        takeText entities expand nested fuel p buffer false rest
      else do
        let (reference, rest) ← takeReference rest
        match reference with
        | .char d =>
          if nested then
            takeText entities expand nested fuel p (pushTextChar buffer d rest.isEmpty) raw rest
          else takeText entities expand nested fuel p (d :: buffer) true rest
        | .entity name =>
          match entityValue? entities name with
          | none => .error (.unknownEntity (String.ofList name))
          | some inner =>
            let p := if buffer = [] then p else p.addText buffer.reverse
            let references ← countReference nested p.references
            let p ← expand { p with references } inner
            let p := if nested then p else { p with references := 0 }
            takeText entities expand nested fuel p [] false rest

/-- Whether character data is free of forbidden characters and of the end of a literal
section. -/
def checkText (cs : List Char) : Except Fault Unit :=
  match cs.find? fun c => !isMarkupChar c with
  | some c => .error (.forbidden c)
  | none => if (Text.splitAtFirst? "]]>".toList cs).isSome then .error .badText else .ok ()

/-- A literal section with its line ends made line feeds. -/
def normalizeLines : List Char → List Char
  | '\r' :: '\n' :: rest => '\n' :: normalizeLines rest
  | '\r' :: rest => '\n' :: normalizeLines rest
  | c :: rest => c :: normalizeLines rest
  | [] => []

/-- Content up to the end tag of the element around it, or to the end of the text. `depth` is
one more than the number of elements opened in this text and not closed; `tagged` says whether
the text has opened an element at all. What is left is given back. -/
def takeContent (entities : List Entity) (levels : Nat) (expand : Expand) (nested : Bool) :
    Nat → Progress → Nat → Bool → List Char → Except Fault (Progress × List Char)
  | 0, p, _, _, cs => .ok (p, cs)
  | fuel + 1, p, depth, tagged, cs =>
    match cs with
    | [] => .ok (p, [])
    | '<' :: '!' :: rest =>
      if begins "--" rest then do
        let (content, rest) ← takeComment (rest.drop 2)
        takeContent entities levels expand nested fuel
          (p.add (.comment (String.ofList content))) depth tagged rest
      else if begins "[CDATA[" rest then do
        let (content, rest) ← takeUntil "]]>".toList (rest.drop 7)
        takeContent entities levels expand nested fuel
          (p.addText (normalizeLines content)) depth tagged (rest.drop 3)
      else .error (.misplaced '!')
    | '<' :: '?' :: rest => do
      let ((target, content), rest) ← takeInstruction rest
      takeContent entities levels expand nested fuel
        (p.add (.instruction (String.ofList target) (String.ofList content))) depth tagged rest
    | '<' :: '/' :: rest => do
      let (written, rest) ← takeQualified rest
      let rest ← expectChar '>' (skipSpace rest)
      if !tagged then .error .strayEndTag
      else
        let p ← endElement p written
        if depth ≤ 1 then .ok (p, rest)
        else takeContent entities levels expand nested fuel p (depth - 1) tagged rest
    | ['<'] => .error .endOfText
    | '<' :: rest => do
      let (p, isOpen, rest) ← takeElement entities levels nested p rest
      takeContent entities levels expand nested fuel p (if isOpen then depth + 1 else depth)
        true rest
    | _ => do
      let chunk := cs.takeWhile (· ≠ '<')
      let rest := cs.dropWhile (· ≠ '<')
      checkText chunk
      let p ← takeText entities expand nested (chunk.length + 1) p [] false chunk
      takeContent entities levels expand nested fuel p depth tagged rest

/-- The content of an entity, which may nest entities `levels` deep. What follows an end tag of
an element around the entity is dropped. -/
def expandEntity (entities : List Entity) : Nat → Expand
  | 0, _, _ => .error .entityLoop
  | levels + 1, p, cs =>
    (takeContent entities levels (expandEntity entities levels) true (cs.length + 1) p 1 false
      cs).map Prod.fst

/-- The element of a document and everything in it, if an opening bracket follows. -/
def takeRootElement (entities : List Entity) (d : Document) (cs : List Char) :
    Except Fault (Progress × List Char) :=
  match cs with
  | '<' :: rest => do
    let (p, isOpen, rest) ← takeElement entities entityLevels false (.start d) rest
    if isOpen then
      takeContent entities entityLevels (expandEntity entities entityLevels) false
        (rest.length + 1) p 1 true rest
    else .ok (p, rest)
  | _ => .ok (.start d, cs)

namespace Document

/-- The document written by a text. -/
def ofChars (cs : List Char) : Except Fault Document := do
  let cs ← skipDeclaration (skipMark cs)
  let (d, entities, cs) ← takeProlog cs
  let (p, cs) ← takeRootElement entities d cs
  let (d, cs) ← takeMisc (cs.length + 1) p.doc cs
  match cs with
  | c :: _ => .error (.misplaced c)
  | [] =>
    if d.documentElement?.isNone then .error .noElement
    else if !p.path.isEmpty then .error .unclosedElement
    else .ok d

/-- The document written by a text, with its locator. -/
def read (text : String) (origin : Option String) : Except Fault Document :=
  (ofChars text.toList).map fun d => d.withOrigin origin

end Document

end MarkupRules.Markup
