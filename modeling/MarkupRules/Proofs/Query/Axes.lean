/-
# What lies along the axes

Some axes walk along the links of a document and others cut the list of all nodes at a rank. Both
give what the tree says: `following` and `preceding` are the nodes that come after or before in
document order without being below or above. So the five axes that part the nodes of a document
leave none out, opposite axes are converses of each other, and the places along an axis are
places of the document in document order or against it.

Key definitions: `Axis.inDocumentOrder`, `Index.axisTo`.

Key theorems: `mem_along_descendant`, `mem_along_ancestor`, `mem_along_following`,
`mem_along_preceding`, `isNodeSet_along`, `axes_of_built`.
-/
import MarkupRules.Proofs.Markup.Built
import MarkupRules.Proofs.Query.Places
import MarkupRules.Query.Walk

namespace MarkupRules.Query

open Markup (Built Document NodeId)
open Markup.Document (root)

namespace Index

variable {d : Document} {n m : Nat}

/-! ### Which nodes lie along an axis -/

theorem ancestors_node (h : d.Linked) (n : NodeId) :
    (ofDocument d).ancestors (.node n) = d.ancestors n := by
  rw [ancestors]
  rcases hp : d.parent? n with _ | p
  · have hnone : (ofDocument d).parent? (.node n) = none := hp
    rw [hnone, Document.Linked.ancestors_eq_nil hp]
  · have hsome : (ofDocument d).parent? (.node n) = some p := hp
    rw [hsome, h.ancestors_eq_cons hp]
    rfl

theorem ancestors_attr (d : Document) (n : NodeId) (i : Nat) :
    (ofDocument d).ancestors (.attr n i) = n :: d.ancestors n :=
  rfl

theorem mem_map_node {ns : List NodeId} : Place.node m ∈ ns.map .node ↔ m ∈ ns := by
  simp

theorem mem_along_self {p q : Place} : q ∈ (ofDocument d).along .self p ↔ q = p :=
  List.mem_singleton

theorem mem_along_child (h : d.Linked) :
    .node m ∈ (ofDocument d).along .child (.node n) ↔ d.Over n m := by
  rw [along, mem_map_node]
  exact h.mem_children_iff

theorem mem_along_parent : .node m ∈ (ofDocument d).along .parent (.node n) ↔ d.Over m n := by
  rw [along, mem_map_node, Option.mem_toList]
  rfl

theorem mem_along_descendant (h : d.Linked) :
    .node m ∈ (ofDocument d).along .descendant (.node n) ↔ d.Above n m := by
  rw [along, mem_map_node]
  exact h.mem_descendants

theorem mem_along_ancestor (h : d.Linked) :
    .node m ∈ (ofDocument d).along .ancestor (.node n) ↔ d.Above m n := by
  rw [along, mem_map_node, ancestors_node h, h.mem_ancestors]

theorem mem_along_ancestor_attr (h : d.Linked) {i : Nat} :
    .node m ∈ (ofDocument d).along .ancestor (.attr n i) ↔ d.AtOrOver m n := by
  rw [along, mem_map_node, ancestors_attr, List.mem_cons, h.mem_ancestors, Document.atOrOver_iff,
    eq_comm]

theorem mem_drop_order (h : d.Linked) {k : Nat} :
    m ∈ (ofDocument d).order.drop k ↔ m < d.size ∧ k ≤ (ofDocument d).rank m := by
  rw [order_ofDocument h, List.mem_iff_getElem?]
  constructor
  · rintro ⟨i, hi⟩
    rw [List.getElem?_drop] at hi
    have hm := h.mem_listing_root.1 (List.mem_of_getElem? hi)
    rw [rank_of_order_getElem? h hi]
    exact ⟨hm, Nat.le_add_right k i⟩
  · rintro ⟨hm, hk⟩
    refine ⟨(ofDocument d).rank m - k, ?_⟩
    rw [List.getElem?_drop, Nat.add_sub_cancel' hk, order_getElem?_rank h hm]

theorem mem_take_order (h : d.Linked) {k : Nat} :
    m ∈ (ofDocument d).order.take k ↔ m < d.size ∧ (ofDocument d).rank m < k := by
  rw [order_ofDocument h, List.mem_iff_getElem?]
  constructor
  · rintro ⟨i, hi⟩
    rw [List.getElem?_take] at hi
    split at hi
    · next hik =>
      have hm := h.mem_listing_root.1 (List.mem_of_getElem? hi)
      rw [rank_of_order_getElem? h hi]
      exact ⟨hm, hik⟩
    · cases hi
  · rintro ⟨hm, hk⟩
    refine ⟨(ofDocument d).rank m, ?_⟩
    rw [List.getElem?_take, if_pos hk, order_getElem?_rank h hm]

theorem mem_along_following_rank (h : d.Linked) {p : Place} :
    .node m ∈ (ofDocument d).along .following p ↔
      m < d.size ∧ (ofDocument d).followingRank p ≤ (ofDocument d).rank m := by
  rw [along, mem_map_node, mem_drop_order h]

theorem mem_along_preceding_rank (h : d.Linked) {p : Place} :
    .node m ∈ (ofDocument d).along .preceding p ↔
      m < d.size ∧ (ofDocument d).rank m < (ofDocument d).rank p.owner ∧
        (ofDocument d).lastRank m < (ofDocument d).rank p.owner := by
  unfold along
  rw [mem_map_node, List.mem_filter, List.mem_reverse, mem_take_order h, decide_eq_true_eq,
    and_assoc]

/-- The last rank of a node is its own rank or a later one. -/
theorem rank_le_lastRank (h : d.Linked) (hn : n < d.size) :
    (ofDocument d).rank n ≤ (ofDocument d).lastRank n :=
  ((atOrOver_iff_rank h hn hn).1 .refl).2

theorem precedes_node_iff (h : d.Linked) :
    Precedes d (.node n) (.node m) ↔ n < d.size ∧ m < d.size ∧
      (ofDocument d).rank n < (ofDocument d).rank m := by
  rw [precedes_iff_before h, before_iff]
  simp [Place.IsIn, Place.owner, Place.offset]

/-- The nodes that follow come after a node and are not below it. -/
theorem mem_along_following (h : d.Linked) (hn : n < d.size) :
    .node m ∈ (ofDocument d).along .following (.node n) ↔
      Precedes d (.node n) (.node m) ∧ ¬ d.Above n m := by
  rw [mem_along_following_rank h, precedes_node_iff h]
  have hlast := rank_le_lastRank h hn
  constructor
  · rintro ⟨hm, hrank⟩
    have hrank : (ofDocument d).lastRank n < (ofDocument d).rank m := hrank
    rw [above_iff_rank h hn hm]
    exact ⟨⟨hn, hm, by omega⟩, by omega⟩
  · rintro ⟨⟨-, hm, hlt⟩, habove⟩
    rw [above_iff_rank h hn hm] at habove
    refine ⟨hm, ?_⟩
    change (ofDocument d).lastRank n < (ofDocument d).rank m
    omega

/-- The nodes that precede come before a node and are not above it. -/
theorem mem_along_preceding (h : d.Linked) (hn : n < d.size) :
    .node m ∈ (ofDocument d).along .preceding (.node n) ↔
      Precedes d (.node m) (.node n) ∧ ¬ d.Above m n := by
  rw [mem_along_preceding_rank h, precedes_node_iff h]
  simp only [Place.owner]
  constructor
  · rintro ⟨hm, hlt, hlast⟩
    rw [above_iff_rank h hm hn]
    exact ⟨⟨hm, hn, hlt⟩, by omega⟩
  · rintro ⟨⟨hm, -, hlt⟩, habove⟩
    rw [above_iff_rank h hm hn] at habove
    exact ⟨hm, hlt, by omega⟩

/-! ### Siblings -/

theorem dropWhile_ne_append {before after : List NodeId} (hn : n ∉ before) :
    ((before ++ n :: after).dropWhile (· ≠ n)).drop 1 = after := by
  have hne : ∀ x ∈ before, decide (x ≠ n) = true := fun x hx =>
    decide_eq_true fun heq => hn (heq ▸ hx)
  rw [List.dropWhile_append_of_pos hne, List.dropWhile_cons_of_neg (by simp), List.drop_succ_cons,
    List.drop_zero]

theorem takeWhile_ne_append {before after : List NodeId} (hn : n ∉ before) :
    (before ++ n :: after).takeWhile (· ≠ n) = before := by
  have hne : ∀ x ∈ before, decide (x ≠ n) = true := fun x hx =>
    decide_eq_true fun heq => hn (heq ▸ hx)
  rw [List.takeWhile_append_of_pos hne, List.takeWhile_cons_of_neg (by simp), List.append_nil]

/-- A child in front of another in the list of their parent. -/
def Left (d : Document) (m n : NodeId) : Prop :=
  ∃ p, [m, n].Sublist (d.children p)

/-- Children come one in front of the other if they were added one before the other. -/
theorem left_iff (h : d.Linked) :
    Left d m n ↔ ∃ p, d.Over p m ∧ d.Over p n ∧ m < n := by
  refine exists_congr fun p => ?_
  rw [pair_sublist_iff (fun _ _ => Nat.lt_asymm) (h.ascending p), h.mem_children_iff,
    h.mem_children_iff]

theorem left_sibling_iff (h : d.Linked) {p : NodeId} (hp : d.Over p n) :
    Left d m n ↔ d.Over p m ∧ m < n := by
  rw [left_iff h]
  constructor
  · rintro ⟨q, hqm, hqn, hlt⟩
    exact ⟨Document.over_unique hqn hp ▸ hqm, hlt⟩
  · exact fun ⟨hpm, hlt⟩ => ⟨p, hpm, hp, hlt⟩

theorem right_sibling_iff (h : d.Linked) {p : NodeId} (hp : d.Over p n) :
    Left d n m ↔ d.Over p m ∧ n < m := by
  rw [left_iff h]
  constructor
  · rintro ⟨q, hqn, hqm, hlt⟩
    exact ⟨Document.over_unique hqn hp ▸ hqm, hlt⟩
  · exact fun ⟨hpm, hlt⟩ => ⟨p, hp, hpm, hlt⟩

section Split

variable {before after : List NodeId} (h : (before ++ n :: after).Pairwise (· < ·))

include h

/-- In an ascending list, what comes in front of an item is what is less. -/
theorem mem_front_iff : m ∈ before ↔ m ∈ before ++ n :: after ∧ m < n := by
  rw [List.pairwise_append, List.pairwise_cons] at h
  obtain ⟨-, ⟨hafter, -⟩, hbefore⟩ := h
  constructor
  · exact fun hm => ⟨List.mem_append_left _ hm, hbefore m hm n List.mem_cons_self⟩
  · rintro ⟨hm, hlt⟩
    refine (List.mem_append.1 hm).resolve_right fun hm => ?_
    rcases List.mem_cons.1 hm with rfl | hm
    · exact Nat.lt_irrefl _ hlt
    · exact Nat.lt_asymm hlt (hafter m hm)

/-- What comes behind it is what is greater. -/
theorem mem_behind_iff : m ∈ after ↔ m ∈ before ++ n :: after ∧ n < m := by
  rw [List.pairwise_append, List.pairwise_cons] at h
  obtain ⟨-, ⟨hafter, -⟩, hbefore⟩ := h
  constructor
  · exact fun hm => ⟨List.mem_append_right _ (List.mem_cons_of_mem _ hm), hafter m hm⟩
  · rintro ⟨hm, hlt⟩
    rcases List.mem_append.1 hm with hm | hm
    · exact absurd (hbefore m hm n List.mem_cons_self) (Nat.lt_asymm hlt)
    · exact (List.mem_cons.1 hm).resolve_left (Nat.ne_of_gt hlt)

end Split

theorem siblings_eq_nil (hn : d.parent? n = none) : (ofDocument d).siblings n = [] := by
  have hnone : (ofDocument d).doc.parent? n = none := hn
  rw [siblings, hnone]

theorem siblings_eq_children {p : NodeId} (hp : d.Over p n) :
    (ofDocument d).siblings n = d.children p := by
  have hsome : (ofDocument d).doc.parent? n = some p := hp
  rw [siblings, hsome]
  rfl

/-- The siblings of a node are those to its left, the node, and those to its right; the document
node has none. -/
theorem siblings_cases (h : d.Linked) (n : NodeId) :
    ((ofDocument d).siblings n = [] ∧ ∀ m, ¬ Left d m n ∧ ¬ Left d n m) ∨
    ∃ before after, (ofDocument d).siblings n = before ++ n :: after ∧ n ∉ before ∧
      ∀ m, (m ∈ before ↔ Left d m n) ∧ (m ∈ after ↔ Left d n m) := by
  rcases hp : d.parent? n with _ | p
  · have horphan : ∀ q, ¬ d.Over q n := by
      intro q hq
      rw [Document.Over, hp] at hq
      cases hq
    refine .inl ⟨siblings_eq_nil hp, fun m => ⟨fun hleft => ?_, fun hleft => ?_⟩⟩
    · obtain ⟨q, -, hq, -⟩ := (left_iff h).1 hleft
      exact horphan q hq
    · obtain ⟨q, hq, -, -⟩ := (left_iff h).1 hleft
      exact horphan q hq
  · obtain ⟨before, after, hcs⟩ := List.append_of_mem (h.mem_children_iff.2 hp)
    -- Children are numbered in order, so that the place of `n` among them divides them by number.
    have hasc := h.ascending p
    rw [hcs] at hasc
    have hsiblings := (siblings_eq_children hp).trans hcs
    refine .inr ⟨before, after, hsiblings, fun hn => ?_, fun m => ⟨?_, ?_⟩⟩
    · exact Nat.lt_irrefl n ((mem_front_iff hasc).1 hn).2
    · rw [mem_front_iff hasc, ← hcs, h.mem_children_iff, left_sibling_iff h hp]
    · rw [mem_behind_iff hasc, ← hcs, h.mem_children_iff, right_sibling_iff h hp]

theorem mem_along_followingSibling (h : d.Linked) :
    .node m ∈ (ofDocument d).along .followingSibling (.node n) ↔ Left d n m := by
  rw [along, mem_map_node]
  rcases siblings_cases h n with ⟨hnil, hnone⟩ | ⟨before, after, hsiblings, hn, hleft⟩
  · rw [hnil]
    exact iff_of_false List.not_mem_nil (hnone m).2
  · rw [hsiblings, dropWhile_ne_append hn]
    exact (hleft m).2

theorem mem_along_precedingSibling (h : d.Linked) :
    .node m ∈ (ofDocument d).along .precedingSibling (.node n) ↔ Left d m n := by
  rw [along, mem_map_node, List.mem_reverse]
  rcases siblings_cases h n with ⟨hnil, hnone⟩ | ⟨before, after, hsiblings, hn, hleft⟩
  · rw [hnil]
    exact iff_of_false List.not_mem_nil (hnone m).1
  · rw [hsiblings, takeWhile_ne_append hn]
    exact (hleft m).1

/-! ### The order of an axis -/

theorem isNodeSet_map_node (h : d.Linked) {ns : List NodeId} (hns : ns.Sublist (d.listing root)) :
    IsNodeSet d (ns.map .node) := by
  have hin : ∀ p ∈ ns.map Place.node, p.IsIn d := by
    intro p hp
    obtain ⟨n, hn, rfl⟩ := List.mem_map.1 hp
    exact h.mem_listing_root.1 (hns.subset hn)
  refine ⟨hin, pairwise_precedes h hin ?_⟩
  rw [List.pairwise_map]
  exact ((pairwise_order h).sublist hns).imp fun hrank => before_iff.2 (.inl hrank)

theorem listing_sublist (h : d.Linked) (hn : n < d.size) :
    (d.listing n).Sublist (d.listing root) := by
  obtain ⟨before, after, hlist⟩ := h.exists_stretch (h.atOrOver_root hn)
  rw [hlist]
  exact (List.sublist_append_right before _).trans (List.sublist_append_left _ after)

theorem descendants_sublist (h : d.Linked) (hn : n < d.size) :
    (d.descendants n).Sublist (d.listing root) := by
  have htail : (d.descendants n).Sublist (d.listing n) := by
    rw [h.listing_eq_cons]
    exact List.sublist_cons_self n _
  exact htail.trans (listing_sublist h hn)

theorem sublist_flatMap_listing (h : d.Linked) :
    ∀ cs : List NodeId, cs.Sublist (cs.flatMap d.listing)
  | [] => .slnil
  | c :: cs => by
    rw [List.flatMap_cons, h.listing_eq_cons]
    exact ((sublist_flatMap_listing h cs).trans (List.sublist_append_right _ _)).cons_cons c

theorem children_sublist (h : d.Linked) (p : NodeId) :
    (d.children p).Sublist (d.listing root) := by
  rcases Nat.lt_or_ge p d.size with hp | hp
  · have hbelow : (d.children p).Sublist (d.descendants p) := by
      rw [h.descendants_eq]
      exact sublist_flatMap_listing h _
    exact hbelow.trans (descendants_sublist h hp)
  · rw [Document.children_eq_nil hp]
    exact List.nil_sublist _

theorem siblings_sublist (h : d.Linked) (n : NodeId) :
    ((ofDocument d).siblings n).Sublist (d.listing root) := by
  rw [siblings]
  split
  · exact children_sublist h _
  · exact List.nil_sublist _

/-- Upwards from a node every node precedes the one before it. -/
theorem isNodeSet_climb (h : d.Linked) (hn : n < d.size) :
    IsNodeSet d ((n :: d.ancestors n).map .node).reverse := by
  have hlt : ∀ m ∈ n :: d.ancestors n, m < d.size := by
    intro m hm
    rcases List.mem_cons.1 hm with rfl | hm
    · exact hn
    · exact Nat.lt_trans (h.lt_of_above (h.mem_ancestors.1 hm)) hn
  rw [← List.map_reverse]
  constructor
  · intro p hp
    obtain ⟨m, hm, rfl⟩ := List.mem_map.1 hp
    exact hlt m (List.mem_reverse.1 hm)
  · rw [List.pairwise_map, List.pairwise_reverse]
    refine (h.pairwise_ancestors hn).imp_of_mem fun {a b} ha hb habove => ?_
    exact (precedes_node_iff h).2
      ⟨hlt b hb, hlt a ha, ((above_iff_rank h (hlt b hb) (hlt a ha)).1 habove).1⟩

/-- An attribute comes after its element and all nodes above it. -/
theorem isNodeSet_climb_attr (h : d.Linked) {i : Nat} (hp : (Place.attr n i).IsIn d) :
    IsNodeSet d (.attr n i :: (n :: d.ancestors n).map .node).reverse := by
  have hn : n < d.size := hp.owner_lt
  obtain ⟨hin, hasc⟩ := isNodeSet_climb h hn
  rw [List.reverse_cons]
  constructor
  · intro q hq
    rcases List.mem_append.1 hq with hq | hq
    · exact hin q hq
    · rwa [List.mem_singleton.1 hq]
  · refine List.pairwise_append.2 ⟨hasc, List.pairwise_singleton _ _, fun a ha b hb => ?_⟩
    rw [List.mem_singleton.1 hb, precedes_iff_before h]
    refine ⟨hin a ha, hp, ?_⟩
    obtain ⟨m, hm, rfl⟩ := List.mem_map.1 (List.mem_reverse.1 ha)
    rcases List.mem_cons.1 hm with rfl | hm
    · exact before_iff.2 (.inr ⟨rfl, Nat.succ_pos i⟩)
    · have habove := h.mem_ancestors.1 hm
      have hmlt : m < d.size := Nat.lt_trans (h.lt_of_above habove) hn
      exact before_iff.2 (.inl ((above_iff_rank h hmlt hn).1 habove).1)

theorem isNodeSet_attributes (h : d.Linked) (n : NodeId) :
    IsNodeSet d ((List.range (d.attributes n).length).map (.attr n)) := by
  have hmem : ∀ p ∈ (List.range (d.attributes n).length).map (Place.attr n), p.IsIn d := by
    intro p hp
    obtain ⟨i, hi, rfl⟩ := List.mem_map.1 hp
    exact List.mem_range.1 hi
  exact ⟨hmem, pairwise_precedes h hmem (List.pairwise_cons.1 (pairwise_placesAt _ n)).2⟩

end Index

/-- Places along an axis turned into document order. -/
def Axis.inDocumentOrder (axis : Axis) (ps : List Place) : List Place :=
  if axis.isReverse then ps.reverse else ps

namespace Index

variable {d : Document}

/-- In document order, the places along an axis are a node-set. -/
theorem isNodeSet_along (h : d.Linked) : ∀ (axis : Axis) {p : Place}, p.IsIn d →
    IsNodeSet d (axis.inDocumentOrder ((ofDocument d).along axis p))
  | .self, _, hp => isNodeSet_singleton hp
  | .child, .node n, _ => isNodeSet_map_node h (children_sublist h n)
  | .child, .attr _ _, _ => isNodeSet_nil
  | .descendant, .node _, hp => isNodeSet_map_node h (descendants_sublist h hp)
  | .descendant, .attr _ _, _ => isNodeSet_nil
  | .descendantOrSelf, .node n, hp => by
    have hlist := isNodeSet_map_node h (listing_sublist h hp)
    rwa [h.listing_eq_cons] at hlist
  | .descendantOrSelf, .attr _ _, hp => isNodeSet_singleton hp
  | .parent, .node n, hp => by
    change IsNodeSet d ((d.parent? n).toList.map Place.node).reverse
    rcases hn : d.parent? n with _ | q
    · exact isNodeSet_nil
    · exact isNodeSet_singleton (Nat.lt_trans (h.lt_of_parent? hn) hp)
  | .parent, .attr _ _, hp => isNodeSet_singleton hp.owner_lt
  | .ancestor, .node n, hp => by
    change IsNodeSet d (((ofDocument d).ancestors (.node n)).map Place.node).reverse
    rw [ancestors_node h]
    refine (isNodeSet_climb h hp).sublist ?_
    rw [List.reverse_sublist]
    exact List.sublist_cons_self _ _
  | .ancestor, .attr _ _, hp => isNodeSet_climb h hp.owner_lt
  | .ancestorOrSelf, .node n, hp => by
    change IsNodeSet d (.node n :: ((ofDocument d).ancestors (.node n)).map Place.node).reverse
    rw [ancestors_node h]
    exact isNodeSet_climb h hp
  | .ancestorOrSelf, .attr _ _, hp => isNodeSet_climb_attr h hp
  | .followingSibling, .node n, _ =>
    isNodeSet_map_node h (((List.drop_sublist _ _).trans (List.dropWhile_sublist _)).trans
      (siblings_sublist h n))
  | .followingSibling, .attr _ _, _ => isNodeSet_nil
  | .precedingSibling, .node n, _ => by
    change IsNodeSet d
      ((((ofDocument d).siblings n).takeWhile (· ≠ n)).reverse.map Place.node).reverse
    rw [← List.map_reverse, List.reverse_reverse]
    exact isNodeSet_map_node h ((List.takeWhile_sublist _).trans (siblings_sublist h n))
  | .precedingSibling, .attr _ _, _ => isNodeSet_nil
  | .following, p, _ => by
    refine isNodeSet_map_node h ?_
    rw [order_ofDocument h]
    exact List.drop_sublist _ _
  | .preceding, p, _ => by
    change IsNodeSet d (List.map Place.node (List.filter _ (List.reverse _))).reverse
    rw [← List.map_reverse, List.filter_reverse, List.reverse_reverse, order_ofDocument h]
    exact isNodeSet_map_node h (List.filter_sublist.trans (List.take_sublist _ _))
  | .attr, .node n, _ => isNodeSet_attributes h n
  | .attr, .attr _ _, _ => isNodeSet_nil
  | .nameScope, _, _ => isNodeSet_nil

theorem isIn_of_mem_along (h : d.Linked) {axis : Axis} {p q : Place} (hp : p.IsIn d)
    (hq : q ∈ (ofDocument d).along axis p) : q.IsIn d := by
  refine (isNodeSet_along h axis hp).isIn q ?_
  rw [Axis.inDocumentOrder]
  split
  · exact List.mem_reverse.2 hq
  · exact hq

theorem nodup_along (h : d.Linked) (axis : Axis) {p : Place} (hp : p.IsIn d) :
    ((ofDocument d).along axis p).Nodup := by
  have hnodup := (isNodeSet_along h axis hp).nodup h
  rw [Axis.inDocumentOrder] at hnodup
  split at hnodup
  · exact List.nodup_reverse.1 hnodup
  · exact hnodup

/-! ### The axes together -/

/-- The axis on which a node lies seen from another. -/
def axisTo (ix : Index) (n m : NodeId) : Axis :=
  if ix.rank m < ix.rank n then
    if ix.lastRank m < ix.rank n then .preceding else .ancestor
  else if ix.rank m = ix.rank n then .self
  else if ix.lastRank n < ix.rank m then .following
  else .descendant

/-- The axes that part the nodes of a document. -/
def partingAxes : List Axis :=
  [.self, .ancestor, .descendant, .preceding, .following]

/-- Of the axes that part the nodes, a node lies on one and on no other. -/
theorem mem_along_iff_axisTo (h : d.Linked) {n m : Nat} (hn : n < d.size) (hm : m < d.size)
    {axis : Axis} (haxis : axis ∈ partingAxes) :
    .node m ∈ (ofDocument d).along axis (.node n) ↔ axis = (ofDocument d).axisTo n m := by
  have hlastn := rank_le_lastRank h hn
  have hlastm := rank_le_lastRank h hm
  simp only [partingAxes, List.mem_cons, List.not_mem_nil, or_false] at haxis
  rw [axisTo]
  rcases haxis with rfl | rfl | rfl | rfl | rfl
  · have hself : m = n ↔ (ofDocument d).rank m = (ofDocument d).rank n :=
      ⟨fun heq => heq ▸ rfl, rank_inj h hm hn⟩
    rw [mem_along_self, Place.node.injEq, hself]
    split_ifs <;> simp <;> omega
  · rw [mem_along_ancestor h, above_iff_rank h hm hn]
    split_ifs <;> simp <;> omega
  · rw [mem_along_descendant h, above_iff_rank h hn hm]
    split_ifs <;> simp <;> omega
  · rw [mem_along_preceding_rank h, and_iff_right hm, Place.owner]
    split_ifs <;> simp <;> omega
  · rw [mem_along_following_rank h, and_iff_right hm, followingRank, Nat.add_one_le_iff]
    split_ifs <;> simp <;> omega

theorem axisTo_mem (ix : Index) (n m : NodeId) : ix.axisTo n m ∈ partingAxes := by
  rw [axisTo]
  split_ifs <;> simp [partingAxes]

/-- What lies above an attribute, before it and after it. -/
def aroundAttribute (ix : Index) (n : NodeId) (i : Nat) : List Place :=
  ix.along .ancestor (.attr n i) ++ ix.along .preceding (.attr n i)
    ++ ix.along .following (.attr n i)

section AroundAttribute

variable {n m i : Nat}

theorem mem_along_ancestor_attr_rank (h : d.Linked) (hn : n < d.size) (hm : m < d.size) :
    .node m ∈ (ofDocument d).along .ancestor (.attr n i) ↔
      (ofDocument d).rank m ≤ (ofDocument d).rank n ∧
        (ofDocument d).rank n ≤ (ofDocument d).lastRank m := by
  rw [mem_along_ancestor_attr h, atOrOver_iff_rank h hm hn]

theorem mem_along_preceding_attr (h : d.Linked) :
    .node m ∈ (ofDocument d).along .preceding (.attr n i) ↔ m < d.size ∧
      (ofDocument d).rank m < (ofDocument d).rank n ∧
        (ofDocument d).lastRank m < (ofDocument d).rank n :=
  mem_along_preceding_rank h

theorem mem_along_following_attr (h : d.Linked) :
    .node m ∈ (ofDocument d).along .following (.attr n i) ↔ m < d.size ∧
      (ofDocument d).rank n < (ofDocument d).rank m :=
  mem_along_following_rank h

/-- Only nodes lie above, before and after a place. -/
theorem exists_node_of_mem_along (h : d.Linked) {axis : Axis}
    (haxis : axis = .ancestor ∨ axis = .preceding ∨ axis = .following) {p q : Place}
    (hp : p.IsIn d) (hq : q ∈ (ofDocument d).along axis p) :
    ∃ m, m < d.size ∧ q = .node m := by
  have hin := isIn_of_mem_along h hp hq
  obtain ⟨m, rfl⟩ : ∃ m, q = .node m := by
    rcases haxis with rfl | rfl | rfl
    all_goals
      obtain ⟨m, -, rfl⟩ := List.mem_map.1 hq
      exact ⟨m, rfl⟩
  exact ⟨m, hin, rfl⟩

theorem nodup_aroundAttribute (h : d.Linked) (hp : (Place.attr n i).IsIn d) :
    ((ofDocument d).aroundAttribute n i).Nodup := by
  have hn : n < d.size := hp.owner_lt
  rw [aroundAttribute, List.nodup_append, List.nodup_append]
  refine ⟨⟨nodup_along h _ hp, nodup_along h _ hp, ?_⟩, nodup_along h _ hp, ?_⟩
  · rintro a ha b hb rfl
    obtain ⟨m, hm, rfl⟩ := exists_node_of_mem_along h (.inl rfl) hp ha
    rw [mem_along_ancestor_attr_rank h hn hm] at ha
    rw [mem_along_preceding_attr h] at hb
    omega
  · rintro a ha b hb rfl
    obtain ⟨m, hm, rfl⟩ := exists_node_of_mem_along h (.inr (.inr rfl)) hp hb
    rw [List.mem_append, mem_along_ancestor_attr_rank h hn hm, mem_along_preceding_attr h] at ha
    rw [mem_along_following_attr h] at hb
    omega

theorem mem_aroundAttribute (h : d.Linked) (hp : (Place.attr n i).IsIn d) {q : Place} :
    q ∈ (ofDocument d).aroundAttribute n i ↔ ∃ m, m < d.size ∧ q = .node m := by
  have hn : n < d.size := hp.owner_lt
  rw [aroundAttribute, List.mem_append, List.mem_append]
  constructor
  · rintro ((hq | hq) | hq)
    · exact exists_node_of_mem_along h (.inl rfl) hp hq
    · exact exists_node_of_mem_along h (.inr (.inl rfl)) hp hq
    · exact exists_node_of_mem_along h (.inr (.inr rfl)) hp hq
  · rintro ⟨m, hm, rfl⟩
    have := rank_le_lastRank h hm
    rw [mem_along_ancestor_attr_rank h hn hm, mem_along_preceding_attr h,
      mem_along_following_attr h]
    omega

/-- Every node is above an attribute, before it or after it, and no node is it in two ways. -/
theorem aroundAttribute_perm (h : d.Linked) (hp : (Place.attr n i).IsIn d) :
    ((ofDocument d).aroundAttribute n i).Perm ((List.range d.size).map .node) := by
  have hnodup : ((List.range d.size).map Place.node).Nodup :=
    List.nodup_range.map fun _ _ heq => Place.node.inj heq
  refine (List.perm_ext_iff_of_nodup (nodup_aroundAttribute h hp) hnodup).2 fun q => ?_
  rw [mem_aroundAttribute h hp, List.mem_map]
  refine exists_congr fun m => ?_
  rw [List.mem_range, eq_comm]

end AroundAttribute

/-- The axes of a document that can be built. Seen from a node, every node lies on exactly one of
the axes that part the nodes, and seen from an attribute every node is above, before or after it
once. Opposite axes are converses. What lies along an axis comes without repetition and in
document order, or against it for the axes that run backwards. -/
theorem axes_of_built (hbuilt : Built d) :
    (∀ n m : NodeId, n < d.size → m < d.size →
      ∃! axis, axis ∈ [Axis.self, .ancestor, .descendant, .preceding, .following] ∧
        .node m ∈ (ofDocument d).along axis (.node n)) ∧
    (∀ (n : NodeId) (i : Nat), (Place.attr n i).IsIn d →
      ((ofDocument d).along .ancestor (.attr n i) ++ (ofDocument d).along .preceding (.attr n i)
        ++ (ofDocument d).along .following (.attr n i)).Perm ((List.range d.size).map .node)) ∧
    (∀ n m : NodeId, n < d.size → m < d.size →
      (.node m ∈ (ofDocument d).along .child (.node n) ↔
        .node n ∈ (ofDocument d).along .parent (.node m)) ∧
      (.node m ∈ (ofDocument d).along .descendant (.node n) ↔
        .node n ∈ (ofDocument d).along .ancestor (.node m)) ∧
      (.node m ∈ (ofDocument d).along .following (.node n) ↔
        .node n ∈ (ofDocument d).along .preceding (.node m)) ∧
      (.node m ∈ (ofDocument d).along .followingSibling (.node n) ↔
        .node n ∈ (ofDocument d).along .precedingSibling (.node m))) ∧
    ∀ (axis : Axis) (p : Place), p.IsIn d →
      ((ofDocument d).along axis p).Nodup ∧
      (axis.isReverse = false → ((ofDocument d).along axis p).Pairwise (Precedes d)) ∧
      (axis.isReverse = true →
        ((ofDocument d).along axis p).Pairwise fun a b => Precedes d b a) := by
  have h := hbuilt.linked
  refine ⟨fun n m hn hm => ?_, fun n i hp => aroundAttribute_perm h hp, fun n m hn hm => ?_,
    fun axis p hp => ⟨nodup_along h axis hp, fun haxis => ?_, fun haxis => ?_⟩⟩
  · refine ⟨(ofDocument d).axisTo n m, ⟨axisTo_mem _ n m, ?_⟩, fun axis ⟨haxis, hmem⟩ => ?_⟩
    · exact (mem_along_iff_axisTo h hn hm (axisTo_mem _ n m)).2 rfl
    · exact (mem_along_iff_axisTo h hn hm haxis).1 hmem
  · refine ⟨?_, ?_, ?_, ?_⟩
    · rw [mem_along_child h, mem_along_parent]
    · rw [mem_along_descendant h, mem_along_ancestor h]
    · rw [mem_along_following h hn, mem_along_preceding h hm]
    · rw [mem_along_followingSibling h, mem_along_precedingSibling h]
  · have hset := isNodeSet_along h axis hp
    rw [Axis.inDocumentOrder, haxis] at hset
    exact hset.ascending
  · have hset := isNodeSet_along h axis hp
    rw [Axis.inDocumentOrder, haxis] at hset
    exact List.pairwise_reverse.1 hset.ascending

/-- On the shelf the text in the first book precedes the second book, and on no other axis. The
comment between the books follows the identifier of the first. -/
theorem axes_of_shelf :
    Place.node 3 ∈ (ofDocument .shelf).along .preceding (.node 5) ∧
    (∃! axis, axis ∈ [Axis.self, .ancestor, .descendant, .preceding, .following] ∧
      .node 3 ∈ (ofDocument .shelf).along axis (.node 5)) ∧
    Place.node 4 ∈ (ofDocument .shelf).along .following (.attr 2 0) ∧
    ((ofDocument .shelf).along .ancestor (.attr 2 0)
      ++ (ofDocument .shelf).along .preceding (.attr 2 0)
      ++ (ofDocument .shelf).along .following (.attr 2 0)).Perm
        ((List.range (Document.shelf).size).map .node) ∧
    ((ofDocument .shelf).along .preceding (.node 5)).Pairwise
      fun a b => Precedes .shelf b a :=
  have haxes := axes_of_built Markup.built_shelf
  ⟨by decide, haxes.1 5 3 (by decide) (by decide), by decide, haxes.2.1 2 0 (by decide),
    (haxes.2.2.2 .preceding (.node 5) (by decide)).2.2 rfl⟩

end Index

end MarkupRules.Query
