/-
# Abstract patterns and rules

A pattern may be an instance of an abstract one, and a rule may extend an abstract one. Expansion
puts the content of the abstract pattern or rule where it is referred to, with the parameters of
the instance substituted in attribute values, and drops the abstract patterns and rules.

A reference leads to content anywhere in the schema, so one walk over a forest is defined over a
function that walks the content of references, and these walks are stacked. No reference may be
followed inside its own content, hence no more walks are ever stacked than there are abstract
patterns and rules.

Key definitions: `Abstraction`, `Abstractions`, `expandTree`, `expand`.
-/
import MarkupRules.NamedList
import MarkupRules.Schema.StageError
import MarkupRules.Schema.Substitution
import MarkupRules.Schema.Vocabulary

namespace MarkupRules.Schema

open Markup (Document Element Tree)

/-- A reference to an abstract rule or pattern. -/
inductive Abstraction where
  /-- The abstract rule of an identifier. -/
  | rule (id : String)
  /-- The abstract pattern of an identifier. -/
  | pattern (id : String)
  deriving DecidableEq, Repr

namespace Abstraction

/-- The identifier. -/
def id : Abstraction → String
  | rule id => id
  | pattern id => id

/-- What is wrong with a schema that lacks what is referred to. -/
def fault : Abstraction → SchemaFault
  | rule id => .noAbstractRule id
  | pattern id => .noAbstractPattern id

end Abstraction

/-- The content of the abstract rules and patterns of a schema by identifier. -/
structure Abstractions where
  /-- What stands in the abstract rules. -/
  rules : NamedList (List Tree)
  /-- What stands in the abstract patterns. -/
  patterns : NamedList (List Tree)

/-- The contents of the abstract elements of a kind by identifier; the last of several elements
with one identifier counts. -/
def abstractContents (schema : Tree) (kind : String) : NamedList (List Tree) :=
  NamedList.ofList (schema.descendants.filterMap fun t =>
    if isAbstract t && isTerm t kind then (t.attribute? "id").map fun id => (id, t.children)
    else none)

namespace Abstractions

/-- The abstract rules and patterns anywhere in a schema. -/
def ofSchema (schema : Tree) : Abstractions :=
  ⟨abstractContents schema "rule", abstractContents schema "pattern"⟩

/-- How many abstract rules and patterns there are. -/
def size (a : Abstractions) : Nat :=
  a.rules.size + a.patterns.size

/-- The content that a reference stands for. -/
def content? (a : Abstractions) : Abstraction → Option (List Tree)
  | .rule id => a.rules.get? id
  | .pattern id => a.patterns.get? id

/-- The content to be walked for a reference that stands inside the content of the references in
`active`. -/
def enter (a : Abstractions) (active : List Abstraction) (r : Abstraction) :
    Except StageError (List Tree) :=
  match a.content? r with
  | none => .error (.invalidSchema r.fault)
  | some content => if active.contains r then .error (.circular r.id) else .ok content

end Abstractions

/-- The parameters that an instance of the abstract pattern `target` gives, in order. -/
def readParameters (target : String) : List Tree → Except StageError (List (String × String))
  | [] => .ok []
  | t :: rest =>
    if isTerm t "param" then
      match t.attribute? "name" with
      | none => .error (.invalidSchema (.unnamedParameter target))
      | some name => do
        let more ← readParameters target rest
        .ok ((name, (t.attribute? "value").getD "") :: more)
    else readParameters target rest

/-- An element with parameters substituted in the values of its attributes. -/
def substituteIn (parameters : List (String × String)) (e : Element) : Element :=
  { e with
    attributes := e.attributes.map fun a => { a with value := substitute parameters a.value } }

/-- How a forest is expanded with parameters, inside the content of the references in a list. -/
abbrev Expander :=
  List (String × String) → List Abstraction → List Tree → Except StageError (List Tree)

mutual

/-- The expansion of a tree, where `deeper` expands the content of references. -/
def expandTree (a : Abstractions) (deeper : Expander) (parameters : List (String × String))
    (active : List Abstraction) : Tree → Except StageError (List Tree)
  | .node payload below =>
    let t : Tree := .node payload below
    match payload with
    | .document => expandAll a deeper parameters active below
    | .element e =>
      if (isTerm t "rule" || isTerm t "pattern") && isAbstract t then .ok []
      else
        match if isTerm t "pattern" then e.attribute? "is-a" else none with
        | some target => do
          let content ← a.enter active (.pattern target)
          let given ← readParameters target below
          let own ← expandOwn a deeper (.pattern target :: active) below
          let inherited ← deeper given (.pattern target :: active) content
          .ok [.node (.element (e.withoutAttribute "is-a")) (own ++ inherited)]
        | none =>
          match if isTerm t "extends" then e.attribute? "rule" else none with
          | some id => do
            let content ← a.enter active (.rule id)
            deeper parameters (.rule id :: active) content
          | none => do
            let below ← expandAll a deeper parameters active below
            .ok [.node (.element (substituteIn parameters e)) below]
    | p => .ok [.node p []]

/-- The expansions of the trees of a forest, one after the other. -/
def expandAll (a : Abstractions) (deeper : Expander) (parameters : List (String × String))
    (active : List Abstraction) : List Tree → Except StageError (List Tree)
  | [] => .ok []
  | t :: rest => do
    let here ← expandTree a deeper parameters active t
    let more ← expandAll a deeper parameters active rest
    .ok (here ++ more)

/-- The expansions of what stands in an instance of an abstract pattern besides parameters. -/
def expandOwn (a : Abstractions) (deeper : Expander) (active : List Abstraction) :
    List Tree → Except StageError (List Tree)
  | [] => .ok []
  | t :: rest => do
    let here ← if isTerm t "param" then .ok [] else expandTree a deeper [] active t
    let more ← expandOwn a deeper active rest
    .ok (here ++ more)

end

/-- The reference followed last. -/
def lastFollowed (active : List Abstraction) : String :=
  ((active.head?).map Abstraction.id).getD ""

/-- Expands a forest with at most the given number of references inside one another. -/
def expandAt (a : Abstractions) : Nat → Expander
  | 0 => fun _ active _ => .error (.circular (lastFollowed active))
  | levels + 1 => expandAll a (expandAt a levels)

/-- The schema with its abstract rules and patterns resolved. -/
def expand (schema : Document) : Except StageError Document := do
  let a := Abstractions.ofSchema schema.tree
  let forest ← expandAt a (a.size + 1) [] [] [schema.tree]
  .ok (Document.ofForest forest)

end MarkupRules.Schema
