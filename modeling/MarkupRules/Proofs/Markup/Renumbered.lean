/-
# Documents that differ in the numbers of their nodes

Nodes have numbers in the order in which they were made, which need not be the order in which they
stand. What is read off a document by its links does not tell the numbers: if another document has
the same nodes with the same links under other numbers, then what is above and below a node and
the text of it are the same, under those numbers.

Key definitions: `Renumbered`.

Key theorems: `Renumbered.listing_eq`, `Renumbered.descendants_eq`, `Renumbered.ancestors_eq`,
`Renumbered.stringValue_eq`.
-/
import MarkupRules.Proofs.Markup.Preorder

namespace MarkupRules.Markup.Document

/-- The second document is the first one with its nodes renumbered: their numbers correspond one to
one, the document node to the document node, and nodes are the same, with the same links. -/
structure Renumbered (f : NodeId → NodeId) (d d' : Document) : Prop where
  /-- The document node is the document node. -/
  top : f root = root
  /-- Nodes become nodes. -/
  lt_size : ∀ n : Nat, n < d.size → f n < d'.size
  /-- Different nodes become different nodes. -/
  inj : ∀ n m : Nat, n < d.size → m < d.size → f n = f m → n = m
  /-- All nodes come from nodes. -/
  onto : ∀ m : Nat, m < d'.size → ∃ n : Nat, n < d.size ∧ f n = m
  /-- Nodes stay what they are. -/
  payload : ∀ n : Nat, n < d.size → d'.payload (f n) = d.payload n
  /-- They stand below the same nodes. -/
  parent : ∀ n : Nat, n < d.size → d'.parent? (f n) = (d.parent? n).map f
  /-- The same nodes stand below them, in the same order. -/
  children : ∀ n : Nat, n < d.size → d'.children (f n) = (d.children n).map f

namespace Renumbered

variable {f : NodeId → NodeId} {d d' : Document} {n : Nat}

theorem element?_eq (h : Renumbered f d d') (hn : n < d.size) :
    d'.element? (f n) = d.element? n := by
  rw [element?, element?, h.payload n hn]

theorem name?_eq (h : Renumbered f d d') (hn : n < d.size) : d'.name? (f n) = d.name? n := by
  rw [name?, name?, h.element?_eq hn]

theorem attributes_eq (h : Renumbered f d d') (hn : n < d.size) :
    d'.attributes (f n) = d.attributes n := by
  rw [attributes, attributes, h.element?_eq hn]

theorem ownText_eq (h : Renumbered f d d') (hn : n < d.size) : d'.ownText (f n) = d.ownText n := by
  rw [ownText, ownText, h.payload n hn]

variable (hd : d.Linked) (hd' : d'.Linked)

include hd hd'

theorem listing_eq (h : Renumbered f d d') (hn : n < d.size) :
    d'.listing (f n) = (d.listing n).map f := by
  revert hn
  refine hd.induction_below (P := fun n => n < d.size → d'.listing (f n) = (d.listing n).map f)
    (fun n ih hn => ?_) n
  have hbelow : ∀ c ∈ d.children n, d'.listing (f c) = (d.listing c).map f := fun c hc =>
    ih c hc (lt_size_of_parent? (hd.mem_children_iff.1 hc))
  rw [hd.listing_eq, hd'.listing_eq, h.children n hn, List.map_cons, List.map_flatMap,
    List.flatMap_map]
  exact congrArg (f n :: ·) (List.flatMap_congr hbelow)

theorem descendants_eq (h : Renumbered f d d') (hn : n < d.size) :
    d'.descendants (f n) = (d.descendants n).map f := by
  have hlisting := h.listing_eq hd hd' hn
  rw [hd.listing_eq_cons, hd'.listing_eq_cons] at hlisting
  exact (List.cons.inj hlisting).2

theorem ancestors_eq (h : Renumbered f d d') (hn : n < d.size) :
    d'.ancestors (f n) = (d.ancestors n).map f := by
  refine hd.induction_above (P := fun n => d'.ancestors (f n) = (d.ancestors n).map f) ?_ ?_ hn
  · have hroot : d'.parent? (f root) = none := by
      rw [h.top]
      exact hd'.parent_root
    rw [Linked.ancestors_eq_nil hroot, Linked.ancestors_eq_nil hd.parent_root, List.map_nil]
  · intro p n hover ih
    have hover' : d'.Over (f p) (f n) := by
      rw [Over, h.parent n (lt_size_of_parent? hover), hover, Option.map_some]
    rw [hd.ancestors_eq_cons hover, hd'.ancestors_eq_cons hover', ih, List.map_cons]

theorem stringValue_eq (h : Renumbered f d d') (hn : n < d.size) :
    d'.stringValue (f n) = d.stringValue n := by
  have htexts : (d'.descendants (f n)).map d'.ownText = (d.descendants n).map d.ownText := by
    rw [h.descendants_eq hd hd' hn, List.map_map]
    refine List.map_congr_left fun m hm => h.ownText_eq ?_
    exact Linked.lt_size_of_above (hd.mem_descendants.1 hm)
  rw [stringValue, stringValue, h.payload n hn, htexts]

end Renumbered

end MarkupRules.Markup.Document
