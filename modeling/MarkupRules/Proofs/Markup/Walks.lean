/-
# Walks with a stack

Everything below a node can be met in a walk that has a stack of nodes still to visit: the node on
top is taken off, and its children are put there, the last one first. In a linked document each
step takes the first node off what is listed for the stack from its top down, so the walk comes to
an end and meets what the recursion through the children lists, in the same order and no node
twice. The text of a node is then put together child by child.

Key definitions: `Document.next?`, `Document.Meets`, `Document.ahead`, `Document.childText`.

Key theorems: `Linked.meets_iff`, `Linked.descendants_eq_flatMap`, `Linked.eq_descendants`,
`stringValue_eq_join`, `walk_lists_subtree`.
-/
import MarkupRules.Proofs.Markup.Rooted

namespace MarkupRules.Markup

/-- Whether there can be nodes below a node of this kind: a document node or an element. -/
def Payload.isBranch : Payload → Bool
  | .document => true
  | .element _ => true
  | _ => false

namespace Document

variable {d : Document} {n : NodeId} {stack rest : List NodeId}

/-! ### The walk -/

/-- A step of a walk with a stack that ends with its top: the node to be visited next, and the
stack with the children of that node in its place, the first one on top. -/
def next? (d : Document) (stack : List NodeId) : Option (NodeId × List NodeId) :=
  stack.getLast?.map fun n => (n, stack.dropLast ++ (d.children n).reverse)

/-- A walk that starts with a stack comes to an end and meets some nodes on its way. -/
inductive Meets (d : Document) : List NodeId → List NodeId → Prop where
  /-- The stack is empty. -/
  | done {stack : List NodeId} : d.next? stack = none → Meets d stack []
  /-- A node is met, and then what the walk meets with the rest. -/
  | step {stack rest ns : List NodeId} {n : NodeId} :
    d.next? stack = some (n, rest) → Meets d rest ns → Meets d stack (n :: ns)

theorem next?_eq_none_iff : d.next? stack = none ↔ stack = [] := by
  simp [next?]

theorem next?_concat (d : Document) (stack : List NodeId) (n : NodeId) :
    d.next? (stack ++ [n]) = some (n, stack ++ (d.children n).reverse) := by
  simp [next?]

theorem exists_of_next? (h : d.next? stack = some (n, rest)) :
    ∃ below, stack = below ++ [n] ∧ rest = below ++ (d.children n).reverse := by
  rcases stack.eq_nil_or_concat with rfl | ⟨below, top, rfl⟩
  · cases h
  · rw [List.concat_eq_append, next?_concat, Option.some.injEq, Prod.mk.injEq] at h
    obtain ⟨rfl, rfl⟩ := h
    exact ⟨below, List.concat_eq_append, rfl⟩

/-- What is listed for the nodes of a stack, from its top down. -/
def ahead (d : Document) (stack : List NodeId) : List NodeId :=
  stack.reverse.flatMap d.listing

namespace Linked

/-- A step takes the first node off what is ahead. -/
theorem ahead_of_next? (h : d.Linked) (hnext : d.next? stack = some (n, rest)) :
    d.ahead stack = n :: d.ahead rest := by
  obtain ⟨below, rfl, rfl⟩ := exists_of_next? hnext
  calc d.ahead (below ++ [n])
      = d.listing n ++ d.ahead below := by simp [ahead]
    _ = n :: ((d.children n).flatMap d.listing ++ d.ahead below) := by
        rw [h.listing_eq, List.cons_append]
    _ = n :: d.ahead (below ++ (d.children n).reverse) := by simp [ahead]

/-- Every walk comes to an end, with what is ahead of it from the start. -/
theorem meets_ahead (h : d.Linked) (stack : List NodeId) : d.Meets stack (d.ahead stack) := by
  -- The stack may grow in a step, but what is ahead gets shorter by one.
  induction hk : (d.ahead stack).length generalizing stack with
  | zero =>
    have hnone : d.next? stack = none := by
      rcases hnext : d.next? stack with _ | ⟨n, rest⟩
      · rfl
      · rw [h.ahead_of_next? hnext] at hk
        cases hk
    rw [List.length_eq_zero_iff.1 hk]
    exact .done hnone
  | succ k ih =>
    rcases hnext : d.next? stack with _ | ⟨n, rest⟩
    · rw [next?_eq_none_iff.1 hnext] at hk
      cases hk
    · have hahead := h.ahead_of_next? hnext
      rw [hahead] at hk ⊢
      exact .step hnext (ih rest (Nat.succ.inj hk))

theorem eq_ahead_of_meets (h : d.Linked) {ns : List NodeId} (hmeets : d.Meets stack ns) :
    ns = d.ahead stack := by
  induction hmeets with
  | done hnext =>
    rw [next?_eq_none_iff.1 hnext]
    rfl
  | step hnext _ ih => rw [h.ahead_of_next? hnext, ih]

theorem meets_iff (h : d.Linked) {ns : List NodeId} : d.Meets stack ns ↔ ns = d.ahead stack :=
  ⟨h.eq_ahead_of_meets, fun hns => hns ▸ h.meets_ahead stack⟩

/-- The walk that starts with the children of a node meets its descendants. -/
theorem meets_children_iff (h : d.Linked) (n : NodeId) {ns : List NodeId} :
    d.Meets (d.children n).reverse ns ↔ ns = d.descendants n := by
  rw [h.meets_iff, ahead, List.reverse_reverse, h.descendants_eq]

/-! ### The recursion through the children -/

theorem descendants_eq_flatMap (h : d.Linked) (n : NodeId) :
    d.descendants n = (d.children n).flatMap fun c => c :: d.descendants c := by
  rw [h.descendants_eq]
  exact List.flatMap_congr fun c _ => h.listing_eq_cons c

/-- The recursion through the children has one solution. -/
theorem eq_descendants (h : d.Linked) {f : NodeId → List NodeId}
    (hf : ∀ n, f n = (d.children n).flatMap fun c => c :: f c) : f = d.descendants := by
  funext n
  induction n using h.induction_below with
  | step n ih =>
    rw [hf, h.descendants_eq_flatMap]
    exact List.flatMap_congr fun c hc => congrArg (c :: ·) (ih c hc)

theorem notMem_descendants (h : d.Linked) (n : NodeId) : n ∉ d.descendants n := by
  rw [h.mem_descendants]
  exact fun hn => Nat.lt_irrefl n (h.lt_of_above hn)

theorem nodup_descendants (h : d.Linked) (n : NodeId) : (d.descendants n).Nodup := by
  have hnodup := h.nodup_listing n
  rw [h.listing_eq_cons] at hnodup
  exact hnodup.of_cons

end Linked

/-! ### Texts -/

/-- What a child adds to the text of the node above it: a text its content, an element its own
text, and other nodes nothing. -/
def childText (d : Document) (c : NodeId) : String :=
  match d.payload c with
  | .text t => t
  | .element _ => d.stringValue c
  | _ => ""

theorem join_flatMap {α : Type} (f : α → List String) : ∀ xs : List α,
    String.join (xs.flatMap f) = String.join (xs.map fun x => String.join (f x))
  | [] => rfl
  | x :: xs => by
    rw [List.flatMap_cons, List.map_cons, String.join_append, String.join_cons, join_flatMap f xs]

theorem stringValue_of_isBranch (hn : (d.payload n).isBranch) :
    d.stringValue n = String.join ((d.descendants n).map d.ownText) := by
  unfold stringValue
  cases hpayload : d.payload n with
  | document => rfl
  | element e => rfl
  | text t => simp [hpayload, Payload.isBranch] at hn
  | comment t => simp [hpayload, Payload.isBranch] at hn
  | instruction target t => simp [hpayload, Payload.isBranch] at hn

/-- The texts at and below a node are what it adds to the text of the node above it, if nothing is
below texts, comments and processing instructions. -/
theorem join_listing_eq_childText (h : d.Linked) (hdocument : d.payload n ≠ .document)
    (hbranch : d.children n ≠ [] → (d.payload n).isBranch) :
    String.join ((n :: d.descendants n).map d.ownText) = d.childText n := by
  have hleaf : (d.payload n).isBranch = false → d.descendants n = [] := by
    intro hn
    have hchildren : d.children n = [] := Classical.not_not.1 fun hne => by simp [hbranch hne] at hn
    rw [h.descendants_eq, hchildren]
    rfl
  rw [List.map_cons, String.join_cons]
  cases hpayload : d.payload n with
  | document => exact absurd hpayload hdocument
  | element e =>
    have hn : (d.payload n).isBranch := by rw [hpayload]; rfl
    rw [← stringValue_of_isBranch hn]
    simp [ownText, childText, hpayload]
  | text t =>
    rw [hleaf (by rw [hpayload]; rfl)]
    simp [ownText, childText, hpayload]
  | comment t =>
    rw [hleaf (by rw [hpayload]; rfl)]
    simp [ownText, childText, hpayload]
  | instruction target t =>
    rw [hleaf (by rw [hpayload]; rfl)]
    simp [ownText, childText, hpayload]

/-- The text of a document node or an element is what its children add to it. -/
theorem stringValue_eq_join (h : d.Linked) (hrooted : d.Rooted)
    (hbranch : ∀ m, d.children m ≠ [] → (d.payload m).isBranch) (hn : (d.payload n).isBranch) :
    d.stringValue n = String.join ((d.children n).map d.childText) := by
  have hchild : ∀ c ∈ d.children n,
      String.join ((c :: d.descendants c).map d.ownText) = d.childText c := by
    intro c hc
    have hdocument : d.payload c ≠ .document :=
      hrooted c (h.mem_children_lt hc).2 (h.ne_root_of_over (h.mem_children_iff.1 hc))
    exact join_listing_eq_childText h hdocument (hbranch c)
  calc d.stringValue n
      = String.join ((d.descendants n).map d.ownText) := stringValue_of_isBranch hn
    _ = String.join ((d.children n).flatMap fun c => (c :: d.descendants c).map d.ownText) := by
        rw [h.descendants_eq_flatMap, List.map_flatMap]
    _ = String.join ((d.children n).map fun c =>
          String.join ((c :: d.descendants c).map d.ownText)) := join_flatMap _ _
    _ = String.join ((d.children n).map d.childText) := by
        rw [List.map_congr_left hchild]

/-! ### Built documents -/

/-- In every document that can be built, the walk with a stack comes to an end at every node. It
meets the descendants of the node, as the one recursion through the children lists them, none of
them twice and without the node itself. If only the document node and elements have children, the
text of such a node is what its children add to it, one after the other. -/
theorem walk_lists_subtree (hbuilt : Built d) (n : NodeId) :
    (∀ ns, d.Meets (d.children n).reverse ns ↔ ns = d.descendants n) ∧
    (∀ f : NodeId → List NodeId,
      (∀ m, f m = (d.children m).flatMap fun c => c :: f c) ↔ f = d.descendants) ∧
    (d.descendants n).Nodup ∧ n ∉ d.descendants n ∧
    ((∀ m, d.children m ≠ [] → (d.payload m).isBranch) → (d.payload n).isBranch →
      d.stringValue n = String.join ((d.children n).map d.childText)) := by
  have h := hbuilt.linked
  refine ⟨fun ns => h.meets_children_iff n, fun f => ⟨h.eq_descendants, ?_⟩,
    h.nodup_descendants n, h.notMem_descendants n, stringValue_eq_join h hbuilt.rooted⟩
  rintro rfl
  exact h.descendants_eq_flatMap

/-- On the shelf the walk meets the first book, its text, the comment and the second book. The
text of the shelf comes from the books. -/
theorem walk_lists_subtree_of_shelf :
    shelf.Meets [5, 4, 2] [2, 3, 4, 5] ∧
    shelf.stringValue 1 = String.join ((shelf.children 1).map shelf.childText) := by
  have hbranch : ∀ m, shelf.children m ≠ [] → (shelf.payload m).isBranch := by
    intro m hm
    have hlt : m < shelf.size := Nat.lt_of_not_le fun hle => hm (children_eq_nil hle)
    have hall : ∀ m < shelf.size, shelf.children m ≠ [] → (shelf.payload m).isBranch := by decide
    exact hall m hlt hm
  obtain ⟨hmeets, -, -, -, htext⟩ := walk_lists_subtree built_shelf 1
  exact ⟨(hmeets [2, 3, 4, 5]).2 (by decide), htext hbranch (by decide)⟩

end Document

end MarkupRules.Markup
