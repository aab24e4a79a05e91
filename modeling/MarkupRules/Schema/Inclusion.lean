/-
# References to other documents

An `include` element is replaced by the element it refers to, and an `extends` element with a
reference by the content of that element. A reference names a document, relative to the document
it stands in, and an element in it by its identifier; without a path it stays in its own
document.

A walk over a forest is defined over a function that walks what references lead to, and these
walks are stacked. A reference that leads to an element whose references are being followed is an
error. There are only so many locators and fragments, so a chain of references that does not come
back to one of its elements ends within `chainLimit`.

Key definitions: `Target`, `locate`, `includeTree`, `resolveReferences`.
-/
import MarkupRules.Markup.Traversal
import MarkupRules.Schema.StageError
import MarkupRules.Schema.Vocabulary

namespace MarkupRules.Schema

open Markup (Document NodeId Tree)

/-- What a reference leads to. -/
structure Target where
  /-- The locator of the document with the fragment behind it. -/
  key : String
  /-- The document. -/
  document : Document
  /-- The element in it. -/
  node : NodeId

/-- The path of a reference, and the identifier behind the first hash sign if there is one. -/
def splitReference (reference : String) : String × Option String :=
  match Text.splitAtFirst? ['#'] reference.toList with
  | some (path, fragment) => (String.ofList path, some (String.ofList fragment))
  | none => (reference, none)

/-- The document that a path leads to from a document. -/
def openDocument (files : Files) (d : Document) (reference path : String) :
    Except StageError Document :=
  if path = "" then .ok d
  else
    match (Source.ofPath (Path.resolve d.origin path)).load files with
    | .ok found => .ok found
    | .error cause => .error (.badReference reference (.unloadable cause))

/-- The element of a document that the fragment of a reference names. -/
def findElement (d : Document) (reference : String) (fragment : Option String) :
    Except StageError NodeId :=
  match fragment with
  | some id =>
    match d.elementById? id with
    | some n => .ok n
    | none => .error (.badReference reference (.noIdentified id))
  | none =>
    match d.documentElement? with
    | some n => .ok n
    | none => .error (.badReference reference .noElement)

/-- The key of an element of a document. -/
def targetKey (d : Document) (fragment : Option String) : String :=
  match fragment with
  | some id => d.origin.getD "" ++ "#" ++ id
  | none => d.origin.getD ""

/-- What a reference in a document leads to, where the keys in `active` are being followed. -/
def locate (files : Files) (d : Document) (active : List String) (reference : String) :
    Except StageError Target := do
  let (path, fragment) := splitReference reference
  let found ← openDocument files d reference path
  let key := targetKey found fragment
  if active.contains key then .error (.circular reference)
  else
    let node ← findElement found reference fragment
    .ok ⟨key, found, node⟩

/-- How the references in a forest from a document are resolved while keys are followed. -/
abbrev Includer := Document → List String → List Tree → Except StageError (List Tree)

mutual

/-- A tree from a document with its references resolved, where `deeper` walks what they lead
to. -/
def includeTree (files : Files) (deeper : Includer) (d : Document) (active : List String) :
    Tree → Except StageError (List Tree)
  | .node payload below =>
    match payload with
    | .document => includeAll files deeper d active below
    | .element e =>
      if e.name.isIn uri "include" then
        match e.attribute? "href" with
        | none => .error (.invalidSchema (.missing "sch:include" "href"))
        | some reference => do
          let t ← locate files d active reference
          deeper t.document (t.key :: active) [t.document.subtree t.node]
      else
        match if e.name.isIn uri "extends" then e.attribute? "href" else none with
        | some reference => do
          let t ← locate files d active reference
          deeper t.document (t.key :: active) (t.document.subtree t.node).children
        | none => do
          let below ← includeAll files deeper d active below
          .ok [.node (.element e) below]
    | p => .ok [.node p []]

/-- The trees of a forest with their references resolved, one after the other. -/
def includeAll (files : Files) (deeper : Includer) (d : Document) (active : List String) :
    List Tree → Except StageError (List Tree)
  | [] => .ok []
  | t :: rest => do
    let here ← includeTree files deeper d active t
    let more ← includeAll files deeper d active rest
    .ok (here ++ more)

end

/-- Resolves references with at most the given number of them inside one another. -/
def includeAt (files : Files) : Nat → Includer
  | 0 => fun _ active _ => .error (.circular (active.head?.getD ""))
  | levels + 1 => includeAll files (includeAt files levels)

/-- The values of the attributes of a document. -/
def attributeValues (d : Document) : List String :=
  (List.range d.size).flatMap fun n => (d.attributes n).map Markup.Attribute.value

/-- The documents that references may lead to: the document itself and those in the files. -/
def documentsOf (files : Files) (d : Document) : List Document :=
  d :: files.root.texts.filterMap fun text => (Document.read text none).toOption

/-- What may stand behind the hash sign of a reference that leads somewhere: the values of the
attributes of those documents. -/
def possibleFragments (files : Files) (d : Document) : List String :=
  (documentsOf files d).flatMap attributeValues

/-- A bound on the length of a chain of references without a repetition: the number of locators,
with the one of the document itself, times the number of fragments, with none. -/
def chainLimit (files : Files) (d : Document) : Nat :=
  (Files.pathCount + 1) * ((possibleFragments files d).length + 1)

/-- The document with all references to other documents resolved. -/
def resolveReferences (files : Files) (schema : Document) : Except StageError Document := do
  let forest ← includeAt files (chainLimit files schema + 1) schema schema.origin.toList
    [schema.tree]
  .ok (Document.ofForest forest)

end MarkupRules.Schema
