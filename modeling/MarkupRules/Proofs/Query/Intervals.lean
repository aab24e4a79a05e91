/-
# Subtrees as intervals of ranks

The ranks of an index number the nodes of a document from the document node on, without a gap. A
node comes before what is below it, and of two siblings everything at and below the earlier one
comes before everything at and below the later one. So the ranks of what is at and below a node are
the numbers from its rank to its last rank.

Key theorems: `Index.map_rank_order`, `Index.pairwise_siblings`, `Index.ranks_number_subtrees`.
-/
import MarkupRules.Proofs.Query.Axes

namespace MarkupRules.Query.Index

open Markup (Built Document NodeId)
open Markup.Document (root)

variable {d : Document}

/-! ### All ranks -/

theorem map_rank_order (h : d.Linked) :
    (d.listing root).map (ofDocument d).rank = List.range d.size := by
  refine List.ext_getElem (by simp [h.length_listing_root]) fun i hi _ => ?_
  rw [List.length_map] at hi
  rw [List.getElem_map, List.getElem_range]
  exact rank_of_order_getElem? h (List.getElem?_eq_getElem hi)

theorem toList_ranks (h : d.Linked) :
    (ofDocument d).ranks.toList = (List.range d.size).map (ofDocument d).rank := by
  refine List.ext_getElem (by simp [size_ranks h]) fun i hi _ => ?_
  rw [Array.length_toList] at hi
  simp [rank, Array.getD_eq_getD_getElem?, hi]

/-- Every number below the number of nodes is the rank of one node. -/
theorem perm_ranks (h : d.Linked) : (ofDocument d).ranks.toList.Perm (List.range d.size) := by
  have hperm : ((List.range d.size).map (ofDocument d).rank).Perm
      ((d.listing root).map (ofDocument d).rank) := h.perm_listing_root.symm.map _
  rwa [map_rank_order h, ← toList_ranks h] at hperm

theorem rank_root (h : d.Linked) : (ofDocument d).rank root = 0 := by
  have hlist : d.listing root = [] ++ root :: d.descendants root := h.listing_eq_cons root
  exact rank_of_order_eq h hlist

theorem rank_lt_of_over (h : d.Linked) {p n : NodeId} (hn : d.Over p n) :
    (ofDocument d).rank p < (ofDocument d).rank n := by
  have hlt : n < d.size := Document.lt_size_of_parent? hn
  have hp : p < d.size := Nat.lt_trans (h.lt_of_parent? hn) hlt
  exact ((above_iff_rank h hp hlt).1 (.single hn)).1

/-- What is at and below a node comes before what is at and below its later siblings. -/
theorem pairwise_siblings (h : d.Linked) (p : NodeId) :
    (d.children p).Pairwise fun a b => ∀ m n, d.AtOrOver a m → d.AtOrOver b n →
      (ofDocument d).rank m < (ofDocument d).rank n := by
  rcases Nat.lt_or_ge p d.size with hp | hp
  · -- What is below `p` is listed child by child, in the order of ranks.
    have hbelow := (pairwise_order h).sublist (descendants_sublist h hp)
    rw [h.descendants_eq, List.pairwise_flatMap] at hbelow
    refine hbelow.2.imp fun hab m n hm hn => ?_
    exact hab m (h.mem_listing.2 hm) n (h.mem_listing.2 hn)
  · rw [Document.children_eq_nil hp]
    exact .nil

/-! ### Intervals -/

/-- In every document that can be built, the ranks number the nodes from zero on, the document node
first, parents before their children and siblings one subtree after the other; and a node is at or
below another one exactly if its rank is one of those from the rank of the other to its last
rank. -/
theorem ranks_number_subtrees (hbuilt : Built d) :
    (ofDocument d).ranks.toList.Perm (List.range d.size) ∧
    (ofDocument d).ends.size = d.size ∧
    (ofDocument d).rank root = 0 ∧
    (∀ p n, d.Over p n → (ofDocument d).rank p < (ofDocument d).rank n) ∧
    (∀ p, (d.children p).Pairwise fun a b => ∀ m n, d.AtOrOver a m → d.AtOrOver b n →
      (ofDocument d).rank m < (ofDocument d).rank n) ∧
    ∀ a n, a < d.size → n < d.size →
      (d.AtOrOver a n ↔ (ofDocument d).rank a ≤ (ofDocument d).rank n ∧
        (ofDocument d).rank n ≤ (ofDocument d).lastRank a) := by
  have h := hbuilt.linked
  refine ⟨perm_ranks h, (swept_ends h).size_eq, rank_root h, fun p n => rank_lt_of_over h,
    pairwise_siblings h, fun a n ha hn => ?_⟩
  exact atOrOver_iff_rank h ha hn

/-- The shelf has ranks up to five. The text is in the first book, the comment is not. -/
theorem ranks_number_subtrees_of_shelf :
    (ofDocument .shelf).ranks.toList.Perm (List.range 6) ∧
    Document.shelf.AtOrOver 2 3 ∧ ¬ Document.shelf.AtOrOver 2 4 := by
  obtain ⟨hperm, -, -, -, -, hwithin⟩ := ranks_number_subtrees Markup.built_shelf
  refine ⟨hperm, (hwithin 2 3 (by decide) (by decide)).2 (by decide), fun hcomment => ?_⟩
  have hrank := (hwithin 2 4 (by decide) (by decide)).1 hcomment
  exact absurd hrank (by decide)

end MarkupRules.Query.Index
