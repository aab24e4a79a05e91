/-
# Where a node is

The location of a node is a path from the document node to it. Each step says of which kind the
node is, for an element with its name, and its number among the siblings of that kind.

Key definitions: `sameKind`, `stepTo`, `location`.
-/
import MarkupRules.Markup.Traversal
import MarkupRules.Query.Value

namespace MarkupRules.Validation

open Markup (Document NodeId Payload)
open Query (Place)

/-- Whether two nodes are counted together: elements of one name, or nodes of one other kind. -/
def sameKind : Payload → Payload → Bool
  | .element a, .element b => a.name.same b.name
  | .document, .document => true
  | .text _, .text _ => true
  | .comment _, .comment _ => true
  | .instruction _ _, .instruction _ _ => true
  | _, _ => false

/-- How many nodes in front of `n` pass a test, on top of those counted so far. -/
@[specialize] def countBefore (test : NodeId → Bool) (n : NodeId) :
    (count : Nat) → List NodeId → Nat
  | count, [] => count
  | count, c :: rest =>
    if c = n then count
    else countBefore test n (if test c then count + 1 else count) rest

theorem countBefore_eq (test : NodeId → Bool) (n count : Nat) (nodes : List NodeId) :
    countBefore test n count nodes =
      count + ((nodes.takeWhile (· ≠ n)).filter test).length := by
  induction nodes generalizing count with
  | nil => rfl
  | cons c rest ih =>
    by_cases hc : c = n
    · simp [countBefore, hc]
    · by_cases ht : test c
      · simp [countBefore, hc, ht, ih]
        omega
      · simp [countBefore, hc, ht, ih]

/-- The number of a node among the children of `parent` that are counted together with it. -/
def siblingNumber (d : Document) (parent n : NodeId) : Nat :=
  let own := d.payload n
  countBefore (fun c => sameKind own (d.payload c)) n 1 (d.children parent)

/-- What a step to a node of a kind is called. -/
def stepLabel : Payload → String
  | .element e => e.name.written
  | .text _ => "text()"
  | .comment _ => "comment()"
  | .instruction _ _ => "processing-instruction()"
  | .document => ""

/-- The step from `parent` to a node below it. -/
def stepTo (d : Document) (parent n : NodeId) : String :=
  stepLabel (d.payload n) ++ "[" ++ toString (siblingNumber d parent n) ++ "]"

/-- The steps to a node, each with a slash in front, where `above` are the nodes above it. -/
def stepsTo (d : Document) : NodeId → List NodeId → String
  | _, [] => ""
  | n, parent :: above => stepsTo d parent above ++ "/" ++ stepTo d parent n

/-- The location of a node of the tree; empty for the document node. -/
def nodeLocation (d : Document) (n : NodeId) : String :=
  stepsTo d n (d.ancestors n)

/-- The location of a node or attribute. -/
def location (d : Document) (p : Place) : String :=
  match p with
  | .node n =>
    let path := nodeLocation d n
    if path = "" then "/" else path
  | .attr n i =>
    match (d.attributes n)[i]? with
    | some a => nodeLocation d n ++ "/@" ++ a.name.written
    | none => nodeLocation d n

end MarkupRules.Validation
