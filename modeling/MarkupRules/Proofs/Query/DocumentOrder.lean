/-
# The ranks of an index

The index of a document numbers the nodes in the order in which they are listed for the document
node, and notes for every node the rank of the last node below it. So a node is at or below
another exactly if its rank lies between the two ranks of the other. The sweep that notes the
last ranks goes through the nodes from the last one to the first: when it comes to a node, the
entry of its last child is final.

Key definitions: `Index.Swept`.

Key theorems: `rank_of_order_eq`, `lastRank_add_one`, `atOrOver_iff_rank`, `pairwise_order`.
-/
import MarkupRules.Proofs.Markup.Preorder
import MarkupRules.Query.Index

namespace MarkupRules.Query

open Markup (Document NodeId)
open Markup.Document (root)

/-! ### Ranks -/

theorem size_rankFrom : ∀ (ns : List NodeId) (ranks : Array Nat) (r : Nat),
    (rankFrom ranks r ns).size = ranks.size
  | [], _, _ => rfl
  | n :: ns, ranks, r => by
    rw [rankFrom, size_rankFrom ns, Array.size_setIfInBounds]

theorem getD_setIfInBounds (xs : Array Nat) (i j v : Nat) (hi : i < xs.size) :
    (xs.setIfInBounds i v).getD j 0 = if i = j then v else xs.getD j 0 := by
  rw [Array.getD_eq_getD_getElem?, Array.getD_eq_getD_getElem?, Array.getElem?_setIfInBounds]
  by_cases hij : i = j
  · subst hij
    simp [hi]
  · simp [hij]

theorem getD_rankFrom_of_notMem {m : Nat} : ∀ (ns : List NodeId) (ranks : Array Nat) (r : Nat),
    m ∉ ns → (rankFrom ranks r ns).getD m 0 = ranks.getD m 0
  | [], _, _, _ => rfl
  | n :: ns, ranks, r, hm => by
    rw [List.mem_cons, not_or] at hm
    rw [rankFrom, getD_rankFrom_of_notMem ns _ _ hm.2]
    simp [Array.getD_eq_getD_getElem?, Array.getElem?_setIfInBounds_ne (Ne.symm hm.1)]

/-- A node is ranked by the number of nodes listed in front of it. -/
theorem getD_rankFrom {m : Nat} {after : List NodeId} : ∀ (before : List NodeId)
    (ranks : Array Nat) (r : Nat), (before ++ m :: after).Nodup → m < ranks.size →
      (rankFrom ranks r (before ++ m :: after)).getD m 0 = r + before.length
  | [], ranks, r, hnodup, hm => by
    have hafter : m ∉ after := (List.nodup_cons.1 hnodup).1
    rw [List.nil_append, rankFrom, getD_rankFrom_of_notMem after _ _ hafter,
      getD_setIfInBounds _ _ _ _ hm, if_pos rfl]
    rfl
  | n :: before, ranks, r, hnodup, hm => by
    have hrest := (List.nodup_cons.1 hnodup).2
    rw [List.cons_append, rankFrom,
      getD_rankFrom before _ _ hrest (by rwa [Array.size_setIfInBounds]), List.length_cons]
    omega

namespace Index

section Ranks

variable {d : Document}

theorem order_ofDocument (h : d.Linked) : (ofDocument d).order = d.listing root :=
  (h.listing_eq_cons root).symm

theorem ranks_ofDocument (h : d.Linked) :
    (ofDocument d).ranks = rankFrom (Array.replicate d.size 0) 0 (d.listing root) := by
  rw [h.listing_eq_cons]
  rfl

theorem ends_ofDocument (h : d.Linked) :
    (ofDocument d).ends = extendEnds d (ofDocument d).ranks (d.listing root).reverse := by
  rw [h.listing_eq_cons]
  rfl

theorem size_ranks (h : d.Linked) : (ofDocument d).ranks.size = d.size := by
  rw [ranks_ofDocument h, size_rankFrom, Array.size_replicate]

theorem rank_of_order_eq (h : d.Linked) {before after : List NodeId} {m : Nat}
    (hm : d.listing root = before ++ m :: after) : (ofDocument d).rank m = before.length := by
  have hlt : m < d.size := h.mem_listing_root.1 (by rw [hm]; simp)
  have hnodup := h.nodup_listing root
  rw [hm] at hnodup
  rw [rank, ranks_ofDocument h, hm,
    getD_rankFrom before _ _ hnodup (by rwa [Array.size_replicate]), Nat.zero_add]

theorem order_getElem?_rank (h : d.Linked) {m : Nat} (hm : m < d.size) :
    (d.listing root)[(ofDocument d).rank m]? = some m := by
  obtain ⟨before, after, hlist⟩ := List.append_of_mem (h.mem_listing_root.2 hm)
  rw [rank_of_order_eq h hlist, hlist]
  simp

theorem rank_of_order_getElem? (h : d.Linked) {i m : Nat}
    (hi : (d.listing root)[i]? = some m) : (ofDocument d).rank m = i := by
  have hm : m < d.size := h.mem_listing_root.1 (List.mem_of_getElem? hi)
  have hlt : i < (d.listing root).length := (List.getElem?_eq_some_iff.1 hi).1
  have hsame := hi.trans (order_getElem?_rank h hm).symm
  exact ((List.getElem?_inj hlt (h.nodup_listing root)).1 hsame).symm

theorem rank_inj (h : d.Linked) {m n : Nat} (hm : m < d.size) (hn : n < d.size)
    (heq : (ofDocument d).rank m = (ofDocument d).rank n) : m = n := by
  have := order_getElem?_rank h hm
  rw [heq, order_getElem?_rank h hn] at this
  exact (Option.some.inj this).symm

/-- The nodes are listed in the order of their ranks. -/
theorem pairwise_order (h : d.Linked) :
    (d.listing root).Pairwise fun a b => (ofDocument d).rank a < (ofDocument d).rank b := by
  rw [List.pairwise_iff_getElem]
  intro i j hi hj hij
  rw [rank_of_order_getElem? h (List.getElem?_eq_getElem hi),
    rank_of_order_getElem? h (List.getElem?_eq_getElem hj)]
  exact hij

/-! ### Last ranks -/

/-- The list of a node stands in the list of all nodes from the rank of the node on. -/
theorem exists_stretch_rank (h : d.Linked) {n : Nat} (hn : n < d.size) :
    ∃ before after, d.listing root = before ++ d.listing n ++ after ∧
      (ofDocument d).rank n = before.length := by
  obtain ⟨before, after, hlist⟩ := h.exists_stretch (h.atOrOver_root hn)
  have hsplit : d.listing root = before ++ n :: (d.descendants n ++ after) := by
    rw [hlist, h.listing_eq_cons]
    simp
  exact ⟨before, after, hlist, rank_of_order_eq h hsplit⟩

theorem atOrOver_iff_rank_lt (h : d.Linked) {n m : Nat} (hn : n < d.size) (hm : m < d.size) :
    d.AtOrOver n m ↔ (ofDocument d).rank n ≤ (ofDocument d).rank m ∧
      (ofDocument d).rank m < (ofDocument d).rank n + (d.listing n).length := by
  obtain ⟨before, after, hlist, hrank⟩ := exists_stretch_rank h hn
  rw [← h.mem_listing, hrank]
  constructor
  · intro hmem
    obtain ⟨front, back, hsplit⟩ := List.append_of_mem hmem
    have hlistm : d.listing root = before ++ front ++ m :: (back ++ after) := by
      rw [hlist, hsplit]
      simp
    have hrankm : (ofDocument d).rank m = (before ++ front).length := rank_of_order_eq h hlistm
    rw [hrankm, hsplit]
    simp only [List.length_append, List.length_cons]
    omega
  · rintro ⟨hle, hlt⟩
    have hget := order_getElem?_rank h hm
    rw [hlist, List.append_assoc, List.getElem?_append_right hle,
      List.getElem?_append_left (by omega)] at hget
    exact List.mem_of_getElem? hget

/-- What is directly below a node is listed behind it. -/
theorem mem_after_of_over (h : d.Linked) {before after : List NodeId} {n c : Nat}
    (hlist : d.listing root = before ++ n :: after) (hover : d.Over n c) : c ∈ after := by
  have hn : n < d.size := h.mem_listing_root.1 (by rw [hlist]; simp)
  have hc : c < d.size := Document.lt_size_of_parent? hover
  have hroot : c ∈ d.listing root := h.mem_listing_root.2 hc
  rw [hlist, List.mem_append, List.mem_cons] at hroot
  rcases hroot with hbefore | rfl | hafter
  · exfalso
    obtain ⟨front, back, hsplit⟩ := List.append_of_mem hbefore
    have hlistc : d.listing root = front ++ c :: (back ++ n :: after) := by
      rw [hlist, hsplit]
      simp
    have hle := ((atOrOver_iff_rank_lt h hn hc).1 (.single hover)).1
    rw [rank_of_order_eq h hlist, rank_of_order_eq h hlistc, hsplit, List.length_append,
      List.length_cons] at hle
    omega
  · exact absurd (h.lt_of_parent? hover) (Nat.lt_irrefl _)
  · exact hafter

/-- What is listed for the last child of a node ends what is listed for the node. -/
theorem rank_add_length_of_last (h : d.Linked) {n last : Nat} (hn : n < d.size)
    {cs : List NodeId} (hcs : d.children n = cs ++ [last]) :
    (ofDocument d).rank last + (d.listing last).length =
      (ofDocument d).rank n + (d.listing n).length := by
  obtain ⟨before, after, hlist, hrank⟩ := exists_stretch_rank h hn
  have hn' : d.listing n = n :: cs.flatMap d.listing ++ d.listing last := by
    rw [h.listing_eq n, hcs]
    simp
  have hsplit : d.listing root =
      before ++ n :: cs.flatMap d.listing ++ last :: (d.descendants last ++ after) := by
    rw [hlist, hn', h.listing_eq_cons last]
    simp
  have hlast : (ofDocument d).rank last = (before ++ n :: cs.flatMap d.listing).length :=
    rank_of_order_eq h hsplit
  rw [hlast, hrank, hn']
  simp only [List.length_append, List.length_cons]
  omega

/-- What holds in the sweep that has been through the nodes `after` and comes to the nodes `ns`,
the last one first: the entries of the former are final, those of the latter are still ranks. -/
structure Swept (d : Document) (ns after : List NodeId) (ends : Array Nat) : Prop where
  /-- All nodes are listed. -/
  order_eq : d.listing root = ns.reverse ++ after
  /-- Every node has an entry. -/
  size_eq : ends.size = d.size
  /-- Where the sweep has been, entries are last ranks. -/
  final : ∀ m ∈ after, ends.getD m 0 + 1 = (ofDocument d).rank m + (d.listing m).length
  /-- Where it has not been, entries are ranks. -/
  pending : ∀ m ∈ ns, ends.getD m 0 = (ofDocument d).rank m

theorem Swept.order_cons {n : Nat} {ns after : List NodeId} {ends : Array Nat}
    (hs : Swept d (n :: ns) after ends) : d.listing root = ns.reverse ++ n :: after := by
  rw [hs.order_eq]
  simp

/-- A node without children is its own last node. -/
theorem Swept.step_leaf (h : d.Linked) {n : Nat} {ns after : List NodeId} {ends : Array Nat}
    (hs : Swept d (n :: ns) after ends) (hn : d.children n = []) :
    Swept d ns (n :: after) ends where
  order_eq := hs.order_cons
  size_eq := hs.size_eq
  final m hm := by
    rcases List.mem_cons.1 hm with rfl | hm
    · rw [hs.pending m List.mem_cons_self, h.listing_eq m, hn]
      rfl
    · exact hs.final m hm
  pending m hm := hs.pending m (List.mem_cons_of_mem n hm)

/-- A node with children takes the entry of its last child, which is final. -/
theorem Swept.step_parent (h : d.Linked) {n last : Nat} {ns after cs : List NodeId}
    {ends : Array Nat} (hs : Swept d (n :: ns) after ends) (hcs : d.children n = cs ++ [last]) :
    Swept d ns (n :: after) (ends.setIfInBounds n (ends.getD last 0)) := by
  have hlist := hs.order_cons
  have hn : n < d.size := h.mem_listing_root.1 (by rw [hlist]; simp)
  have hover : d.Over n last := h.mem_children_iff.1 (by rw [hcs]; simp)
  have hset : ∀ m, (ends.setIfInBounds n (ends.getD last 0)).getD m 0 =
      if n = m then ends.getD last 0 else ends.getD m 0 := fun m =>
    getD_setIfInBounds _ _ _ _ (hs.size_eq ▸ hn)
  -- What is below a node ends where its last child ends, and the end of that is known by now.
  refine ⟨hlist, by rw [Array.size_setIfInBounds, hs.size_eq], fun m hm => ?_, fun m hm => ?_⟩
  · rw [hset]
    split
    · next heq =>
      subst heq
      rw [hs.final last (mem_after_of_over h hlist hover), rank_add_length_of_last h hn hcs]
    · next hne => exact hs.final m ((List.mem_cons.1 hm).resolve_left (Ne.symm hne))
  · have hne : n ≠ m := by
      rintro rfl
      have hnodup := h.nodup_listing root
      rw [hlist, List.nodup_append] at hnodup
      exact hnodup.2.2 n (List.mem_reverse.2 hm) n List.mem_cons_self rfl
    rw [hset, if_neg hne]
    exact hs.pending m (List.mem_cons_of_mem n hm)

/-- The sweep leaves final entries everywhere. -/
theorem Swept.extendEnds (h : d.Linked) : ∀ {ns after : List NodeId} {ends : Array Nat},
    Swept d ns after ends → Swept d [] (d.listing root) (extendEnds d ends ns)
  | [], after, ends, hs => by
    have hlist : d.listing root = after := hs.order_eq
    rw [hlist]
    exact ⟨hlist, hs.size_eq, hs.final, by simp⟩
  | n :: ns, after, ends, hs => by
    rw [Query.extendEnds]
    rcases hlast : d.lastChild? n with _ | last
    · rw [Document.lastChild?_eq, List.getLast?_eq_none_iff] at hlast
      exact Swept.extendEnds h (hs.step_leaf h hlast)
    · rw [Document.lastChild?_eq, List.getLast?_eq_some_iff] at hlast
      obtain ⟨cs, hcs⟩ := hlast
      exact Swept.extendEnds h (hs.step_parent h hcs)

/-- The sweep starts from the ranks and goes through all nodes. -/
theorem swept_ends (h : d.Linked) : Swept d [] (d.listing root) (ofDocument d).ends := by
  have hstart : Swept d (d.listing root).reverse [] (ofDocument d).ranks :=
    ⟨by simp, size_ranks h, by simp, fun m _ => rfl⟩
  rw [ends_ofDocument h]
  exact hstart.extendEnds h

/-- The last rank of a node is that of the last node listed for it. -/
theorem lastRank_add_one (h : d.Linked) {n : Nat} (hn : n < d.size) :
    (ofDocument d).lastRank n + 1 = (ofDocument d).rank n + (d.listing n).length :=
  (swept_ends h).final n (h.mem_listing_root.2 hn)

/-- A node is at or below another exactly if its rank lies between the two ranks of the other. -/
theorem atOrOver_iff_rank (h : d.Linked) {n m : Nat} (hn : n < d.size) (hm : m < d.size) :
    d.AtOrOver n m ↔ (ofDocument d).rank n ≤ (ofDocument d).rank m ∧
      (ofDocument d).rank m ≤ (ofDocument d).lastRank n := by
  rw [atOrOver_iff_rank_lt h hn hm, ← lastRank_add_one h hn, Nat.lt_succ_iff]

theorem above_iff_rank (h : d.Linked) {n m : Nat} (hn : n < d.size) (hm : m < d.size) :
    d.Above n m ↔ (ofDocument d).rank n < (ofDocument d).rank m ∧
      (ofDocument d).rank m ≤ (ofDocument d).lastRank n := by
  have hover := atOrOver_iff_rank h hn hm
  rw [Document.atOrOver_iff] at hover
  constructor
  · intro habove
    obtain ⟨hle, hlast⟩ := hover.1 (.inr habove)
    refine ⟨Nat.lt_of_le_of_ne hle fun heq => ?_, hlast⟩
    exact Nat.ne_of_lt (h.lt_of_above habove) (rank_inj h hn hm heq)
  · rintro ⟨hlt, hlast⟩
    refine (hover.2 ⟨Nat.le_of_lt hlt, hlast⟩).resolve_left ?_
    rintro rfl
    exact Nat.lt_irrefl _ hlt

end Ranks

end Index

end MarkupRules.Query
