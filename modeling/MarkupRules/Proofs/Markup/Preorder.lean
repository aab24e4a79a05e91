/-
# Document order

In a linked document the nodes at and below a node are listed by recursion: the node, then child
by child what is listed for the child. The walk with a list of nodes still to visit lists the
same, and so does the climb through the parents in the other direction. No node is listed twice,
everything below a node is listed for it, and the list of a node is one stretch of the list of
any node above it.

Key definitions: `Document.Over`, `Document.AtOrOver`, `Document.listing`.

Key theorems: `Linked.listing_eq`, `Linked.mem_listing`, `Linked.nodup_listing`,
`Linked.listing_eq_cons`, `Linked.exists_stretch`, `Linked.mem_ancestors`.
-/
import Mathlib.Data.List.Nodup
import Mathlib.Data.List.Perm.Subperm
import Mathlib.Logic.Relation
import MarkupRules.Markup.Traversal
import MarkupRules.Proofs.Markup.Links

namespace MarkupRules.Markup.Document

/-! ### Above and below -/

/-- A node is directly above another. -/
def Over (d : Document) (a n : NodeId) : Prop :=
  d.parent? n = some a

/-- A node is above another, or is the other. -/
def AtOrOver (d : Document) : NodeId → NodeId → Prop :=
  Relation.ReflTransGen d.Over

/-- A node is above another. -/
def Above (d : Document) : NodeId → NodeId → Prop :=
  Relation.TransGen d.Over

variable {d : Document}

theorem atOrOver_iff {a n : NodeId} : d.AtOrOver a n ↔ n = a ∨ d.Above a n :=
  Relation.reflTransGen_iff_eq_or_transGen

/-- A node has one node directly above it. -/
theorem over_unique {a b n : NodeId} (ha : d.Over a n) (hb : d.Over b n) : a = b :=
  Option.some.inj (ha.symm.trans hb)

/-- Of two nodes above a third, one is above the other. -/
theorem AtOrOver.total {a b n : NodeId} (ha : d.AtOrOver a n) (hb : d.AtOrOver b n) :
    d.AtOrOver a b ∨ d.AtOrOver b a := by
  have hunique : Relator.RightUnique (Function.swap d.Over) := fun _ _ _ h h' => over_unique h h'
  have := Relation.ReflTransGen.total_of_right_unique hunique
    (Relation.reflTransGen_swap.2 ha) (Relation.reflTransGen_swap.2 hb)
  exact this.symm.imp Relation.reflTransGen_swap.1 Relation.reflTransGen_swap.1

/-- What is above a node is above the node over it, or is that node. -/
theorem Above.atOrOver {a p n : NodeId} (ha : d.Above a n) (hp : d.Over p n) :
    d.AtOrOver a p := by
  obtain ⟨q, haq, hq⟩ := Relation.TransGen.tail'_iff.1 ha
  exact over_unique hq hp ▸ haq

namespace Linked

theorem mem_children_iff (h : d.Linked) {p n : NodeId} : n ∈ d.children p ↔ d.Over p n :=
  h.mem_children p n

theorem ne_root_of_over (h : d.Linked) {p n : NodeId} (hp : d.Over p n) : n ≠ root := by
  rintro rfl
  rw [Over, h.parent_root] at hp
  cases hp

theorem lt_of_above (h : d.Linked) {a n : Nat} (ha : d.Above a n) : a < n := by
  induction ha with
  | single hn => exact h.lt_of_parent? hn
  | tail _ hn ih => exact Nat.lt_trans ih (h.lt_of_parent? hn)

theorem le_of_atOrOver (h : d.Linked) {a n : Nat} (ha : d.AtOrOver a n) : a ≤ n := by
  rcases atOrOver_iff.1 ha with rfl | ha
  · exact Nat.le_refl _
  · exact Nat.le_of_lt (h.lt_of_above ha)

theorem lt_size_of_above {a n : NodeId} (ha : d.Above a n) : n < d.size := by
  obtain ⟨q, -, hq⟩ := Relation.TransGen.tail'_iff.1 ha
  exact lt_size_of_parent? hq

/-- To show something of all nodes, show it of a node for whose children it holds. -/
theorem induction_below (h : d.Linked) {P : NodeId → Prop}
    (step : ∀ n, (∀ c ∈ d.children n, P c) → P n) (n : Nat) : P n := by
  induction hk : d.size - n using Nat.strongRecOn generalizing n with
  | _ k ih =>
    refine step n fun c hc => ih (d.size - c) ?_ c rfl
    have := h.mem_children_lt hc
    omega

/-- To show something of all nodes, show it of the document node and of every node for whose
parent it holds. -/
theorem induction_above (h : d.Linked) {P : NodeId → Prop} (base : P root)
    (step : ∀ p n, d.Over p n → P p → P n) {n : Nat} (hn : n < d.size) : P n := by
  induction n using Nat.strongRecOn with
  | _ n ih =>
    by_cases hr : n = root
    · exact hr ▸ base
    · obtain ⟨p, hp, hpn⟩ := h.parent_lt n hn hr
      exact step p n hpn (ih p hp (Nat.lt_trans hp hn))

theorem atOrOver_root (h : d.Linked) {n : NodeId} (hn : n < d.size) : d.AtOrOver root n :=
  h.induction_above .refl (fun _ _ hpn ih => ih.tail hpn) hn

end Linked

/-! ### The list of a node -/

/-- The nodes at and below a node, at most the given number of levels deep. -/
def listingDeep (d : Document) : Nat → NodeId → List NodeId
  | 0, n => [n]
  | levels + 1, n => n :: (d.children n).flatMap (listingDeep d levels)

/-- The nodes at and below a node in document order. -/
def listing (d : Document) (n : NodeId) : List NodeId :=
  d.listingDeep d.size n

namespace Linked

/-- Below a node there are at most as many levels as there are nodes behind it. -/
theorem listingDeep_congr (h : d.Linked) : ∀ {a b n : Nat}, d.size - n ≤ a →
    d.size - n ≤ b → d.listingDeep a n = d.listingDeep b n
  | 0, 0, _, _, _ => rfl
  | 0, b + 1, n, ha, _ => by
    simp [listingDeep, children_eq_nil (Nat.sub_eq_zero_iff_le.1 (Nat.le_zero.1 ha))]
  | a + 1, 0, n, _, hb => by
    simp [listingDeep, children_eq_nil (Nat.sub_eq_zero_iff_le.1 (Nat.le_zero.1 hb))]
  | a + 1, b + 1, n, ha, hb => by
    rw [listingDeep, listingDeep]
    congr 1
    refine List.flatMap_congr fun c hc => ?_
    have := h.mem_children_lt hc
    exact h.listingDeep_congr (by omega) (by omega)

/-- A node comes first, then child by child what is below it. -/
theorem listing_eq (h : d.Linked) (n : NodeId) :
    d.listing n = n :: (d.children n).flatMap d.listing := by
  have hsize : d.size = d.size - 1 + 1 := (Nat.sub_add_cancel h.root_lt).symm
  have hlist : d.listingDeep (d.size - 1 + 1) n =
      n :: (d.children n).flatMap (d.listingDeep (d.size - 1)) := rfl
  rw [listing, hsize, hlist]
  congr 1
  refine List.flatMap_congr fun c hc => ?_
  have := h.mem_children_lt hc
  exact h.listingDeep_congr (by omega) (by omega)

/-- Exactly the nodes at and below a node are listed for it. -/
theorem mem_listing (h : d.Linked) {n m : NodeId} : m ∈ d.listing n ↔ d.AtOrOver n m := by
  induction n using h.induction_below with
  | step n ih =>
    rw [h.listing_eq, List.mem_cons, List.mem_flatMap, AtOrOver,
      Relation.ReflTransGen.cases_head_iff]
    refine or_congr eq_comm (exists_congr fun c => ?_)
    rw [h.mem_children_iff]
    exact and_congr_right fun hc => ih c (h.mem_children_iff.2 hc)

/-- Two children of a node have nothing below them in common. -/
theorem disjoint_listing (h : d.Linked) {p a b : NodeId} (ha : d.Over p a) (hb : d.Over p b)
    (hab : a ≠ b) : List.Disjoint (d.listing a) (d.listing b) := by
  have apart : ∀ {a b : NodeId}, d.Over p a → d.Over p b → a ≠ b → ¬ d.AtOrOver a b := by
    intro a b ha hb hab hover
    have habove : d.Above a b := (atOrOver_iff.1 hover).resolve_left hab.symm
    have hle : a ≤ p := h.le_of_atOrOver (habove.atOrOver hb)
    exact Nat.not_lt_of_le hle (h.lt_of_parent? ha)
  intro m hma hmb
  rcases (h.mem_listing.1 hma).total (h.mem_listing.1 hmb) with hover | hover
  · exact apart ha hb hab hover
  · exact apart hb ha hab.symm hover

/-- No node is listed twice. -/
theorem nodup_listing (h : d.Linked) (n : NodeId) : (d.listing n).Nodup := by
  induction n using h.induction_below with
  | step n ih =>
    rw [h.listing_eq, List.nodup_cons, List.nodup_flatMap]
    refine ⟨fun hn => ?_, ih, ?_⟩
    · obtain ⟨c, hc, hn⟩ := List.mem_flatMap.1 hn
      have := h.le_of_atOrOver (h.mem_listing.1 hn)
      have := (h.mem_children_lt hc).1
      omega
    · refine (h.ascending n).imp_of_mem fun ha hb hab => ?_
      exact h.disjoint_listing (h.mem_children_iff.1 ha) (h.mem_children_iff.1 hb)
        (Nat.ne_of_lt hab)

theorem lt_size_of_mem_listing (h : d.Linked) {n m : NodeId} (hn : n < d.size)
    (hm : m ∈ d.listing n) : m < d.size := by
  rcases atOrOver_iff.1 (h.mem_listing.1 hm) with rfl | hm
  · exact hn
  · exact lt_size_of_above hm

theorem length_listing_le (h : d.Linked) {n : NodeId} (hn : n < d.size) :
    (d.listing n).length ≤ d.size := by
  have hsub : d.listing n ⊆ List.range d.size := fun m hm =>
    List.mem_range.2 (h.lt_size_of_mem_listing hn hm)
  have := (List.subperm_of_subset (h.nodup_listing n) hsub).length_le
  rwa [List.length_range] at this

/-! ### The walk with a list of nodes still to visit -/

/-- With fuel for all nodes to come, the walk lists what is listed for the pending nodes. -/
theorem visit_eq (h : d.Linked) : ∀ {fuel : Nat} {pending : List NodeId},
    (pending.flatMap d.listing).length ≤ fuel → d.visit fuel pending = pending.flatMap d.listing
  | 0, pending, hfuel => (List.eq_nil_of_length_eq_zero (Nat.le_zero.1 hfuel)).symm
  | _ + 1, [], _ => rfl
  | fuel + 1, n :: pending, hfuel => by
    have hlist : (n :: pending).flatMap d.listing =
        n :: (d.children n ++ pending).flatMap d.listing := by
      rw [List.flatMap_cons, h.listing_eq, List.flatMap_append, List.cons_append]
    rw [hlist, List.length_cons] at hfuel
    rw [hlist, visit, h.visit_eq (Nat.le_of_succ_le_succ hfuel)]

theorem descendants_eq (h : d.Linked) (n : NodeId) :
    d.descendants n = (d.children n).flatMap d.listing := by
  refine h.visit_eq ?_
  rcases Nat.lt_or_ge n d.size with hn | hn
  · have := h.length_listing_le hn
    rw [h.listing_eq, List.length_cons] at this
    exact Nat.le_of_succ_le this
  · simp [children_eq_nil hn]

/-- The list of a node is the node and its descendants. -/
theorem listing_eq_cons (h : d.Linked) (n : NodeId) : d.listing n = n :: d.descendants n := by
  rw [h.listing_eq, h.descendants_eq]

theorem mem_descendants (h : d.Linked) {n m : NodeId} : m ∈ d.descendants n ↔ d.Above n m := by
  have hnodup := h.nodup_listing n
  rw [h.listing_eq_cons, List.nodup_cons] at hnodup
  have hmem := h.mem_listing (n := n) (m := m)
  rw [h.listing_eq_cons, List.mem_cons, atOrOver_iff] at hmem
  constructor
  · intro hm
    refine (hmem.1 (.inr hm)).resolve_left ?_
    rintro rfl
    exact hnodup.1 hm
  · intro hm
    exact (hmem.2 (.inr hm)).resolve_left (Nat.ne_of_gt (h.lt_of_above hm))

/-- Every node is listed for the document node. -/
theorem mem_listing_root (h : d.Linked) {n : NodeId} : n ∈ d.listing root ↔ n < d.size :=
  ⟨h.lt_size_of_mem_listing h.root_lt, fun hn => h.mem_listing.2 (h.atOrOver_root hn)⟩

/-- Every node is listed once for the document node. -/
theorem perm_listing_root (h : d.Linked) : (d.listing root).Perm (List.range d.size) :=
  (List.perm_ext_iff_of_nodup (h.nodup_listing root) List.nodup_range).2 fun n => by
    rw [h.mem_listing_root, List.mem_range]

theorem length_listing_root (h : d.Linked) : (d.listing root).length = d.size := by
  rw [h.perm_listing_root.length_eq, List.length_range]

/-- The list of a node is one stretch of the list of any node above it. -/
theorem exists_stretch (h : d.Linked) {a n : NodeId} (ha : d.AtOrOver a n) :
    ∃ before after, d.listing a = before ++ d.listing n ++ after := by
  induction ha with
  | refl => exact ⟨[], [], by simp⟩
  | @tail p n _ hn ih =>
    obtain ⟨before, after, hlist⟩ := ih
    obtain ⟨cs, cs', hcs⟩ := List.append_of_mem (h.mem_children_iff.2 hn)
    refine ⟨before ++ p :: cs.flatMap d.listing, cs'.flatMap d.listing ++ after, ?_⟩
    rw [hlist, h.listing_eq, hcs]
    simp

/-! ### The climb through the parents -/

/-- Above a node there are at most as many nodes as there are before it. -/
theorem climb_congr (h : d.Linked) : ∀ {a b n : Nat}, n ≤ a → n ≤ b →
    d.climb a n = d.climb b n
  | 0, 0, _, _, _ => rfl
  | 0, b + 1, n, ha, _ => by
    obtain rfl : n = root := Nat.le_zero.1 ha
    simp [climb, h.parent_root]
  | a + 1, 0, n, _, hb => by
    obtain rfl : n = root := Nat.le_zero.1 hb
    simp [climb, h.parent_root]
  | a + 1, b + 1, n, ha, hb => by
    rw [climb, climb]
    rcases hp : d.parent? n with _ | p
    · rfl
    · -- The parent has a smaller number, so that what is left of both is enough for it.
      have := h.lt_of_parent? hp
      dsimp only
      rw [h.climb_congr (a := a) (b := b) (by omega) (by omega)]

theorem ancestors_eq_cons (h : d.Linked) {p n : Nat} (hp : d.Over p n) :
    d.ancestors n = p :: d.ancestors p := by
  have hn : n < d.size := lt_size_of_parent? hp
  have hlt : p < n := h.lt_of_parent? hp
  have hsize : d.size = d.size - 1 + 1 := (Nat.sub_add_cancel h.root_lt).symm
  have hclimb : d.climb (d.size - 1 + 1) n = p :: d.climb (d.size - 1) p := by
    rw [climb, hp]
  have hfuel : d.climb (d.size - 1) p = d.climb d.size p :=
    h.climb_congr (by omega) (by omega)
  rw [ancestors, hsize, hclimb, hfuel, ancestors]

theorem ancestors_eq_nil {n : NodeId} (hn : d.parent? n = none) : d.ancestors n = [] := by
  rw [ancestors]
  rcases d.size with _ | k
  · rfl
  · rw [climb, hn]

/-- The climb meets exactly the nodes above a node. -/
theorem mem_ancestors (h : d.Linked) {n m : NodeId} : m ∈ d.ancestors n ↔ d.Above m n := by
  rcases Nat.lt_or_ge n d.size with hn | hn
  · refine h.induction_above (P := fun n => m ∈ d.ancestors n ↔ d.Above m n) ?_ ?_ hn
    · rw [ancestors_eq_nil h.parent_root]
      have : ¬ d.Above m root := fun ha => Nat.not_lt_zero _ (h.lt_of_above ha)
      simpa using this
    · intro p n hp ih
      rw [h.ancestors_eq_cons hp, List.mem_cons, ih]
      constructor
      · rintro (rfl | hm)
        · exact .single hp
        · exact .tail hm hp
      · intro hm
        exact (atOrOver_iff.1 (hm.atOrOver hp)).imp_left Eq.symm
  · have hnone : d.parent? n = none := by simp [parent?, getElem?_eq_none hn]
    rw [ancestors_eq_nil hnone]
    have : ¬ d.Above m n := fun ha => Nat.not_lt_of_le hn (lt_size_of_above ha)
    simpa using this

/-- The climb leads from every node to nodes above it. -/
theorem pairwise_ancestors (h : d.Linked) {n : NodeId} (hn : n < d.size) :
    (n :: d.ancestors n).Pairwise fun a b => d.Above b a := by
  refine h.induction_above (P := fun n => (n :: d.ancestors n).Pairwise fun a b => d.Above b a)
    ?_ ?_ hn
  · rw [ancestors_eq_nil h.parent_root]
    exact List.pairwise_singleton _ _
  · intro p n hp ih
    rw [h.ancestors_eq_cons hp]
    refine List.pairwise_cons.2 ⟨fun m hm => ?_, ih⟩
    rcases List.mem_cons.1 hm with rfl | hm
    · exact .single hp
    · exact .tail (h.mem_ancestors.1 hm) hp

end Linked

end MarkupRules.Markup.Document
