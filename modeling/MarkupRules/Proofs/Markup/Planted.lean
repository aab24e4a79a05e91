/-
# Planted forests

To plant trees below a node is to put them behind the trees that are there: character data joins
a text in front of it, and of a document node only what is below it is put there. Nothing else in
the document changes. So the document of a forest is, as a tree, that forest with neighbouring
texts joined.

Key definitions: `Tree.joinText`, `Tree.settle`, `Document.forest`, `Document.GrowsAt`,
`Document.Gains`.

Key theorems: `Linked.subtree_eq`, `gains_of_push`, `plant_spec`, `tree_ofForest`.
-/
import MarkupRules.Markup.Tree
import MarkupRules.Proofs.Markup.Preorder

namespace MarkupRules.Markup

namespace Tree

/-! ### Trees behind trees -/

/-- Trees with character data behind them, which joins a text at their end. -/
def joinText (done : List Tree) (s : String) : List Tree :=
  match done.getLast? with
  | some (.node (.text t) below) => done.dropLast ++ [.node (.text (t ++ s)) below]
  | _ => done ++ [.node (.text s) []]

mutual

/-- Trees with a tree behind them, as they stand once it is planted. -/
def settle (done : List Tree) : Tree → List Tree
  | .node payload ts =>
    match payload with
    | .text s => joinText done s
    | .document => settleAll done ts
    | p => done ++ [.node p (settleAll [] ts)]

/-- Trees with the trees of a forest behind them, as they stand once it is planted. -/
def settleAll (done : List Tree) : List Tree → List Tree
  | [] => done
  | t :: ts => settleAll (settle done t) ts

end

theorem joinText_concat (done : List Tree) (t s : String) (below : List Tree) :
    joinText (done ++ [.node (.text t) below]) s = done ++ [.node (.text (t ++ s)) below] := by
  simp [joinText]

/-- Behind anything but a text, character data is a text of its own. -/
theorem joinText_eq_concat {done : List Tree} {s : String}
    (h : ∀ t below, done.getLast? ≠ some (.node (.text t) below)) :
    joinText done s = done ++ [.node (.text s) []] := by
  unfold joinText
  split
  · next t below hlast => exact absurd hlast (h t below)
  · rfl

end Tree

namespace Document

variable {d d' : Document}

/-! ### Subtrees -/

namespace Linked

/-- Below a node there are at most as many levels as there are nodes behind it. -/
theorem subtreeDeep_congr (h : d.Linked) : ∀ {a b n : Nat}, d.size - n ≤ a →
    d.size - n ≤ b → d.subtreeDeep a n = d.subtreeDeep b n
  | 0, 0, _, _, _ => rfl
  | 0, b + 1, n, ha, _ => by
    simp [subtreeDeep, children_eq_nil (Nat.sub_eq_zero_iff_le.1 (Nat.le_zero.1 ha))]
  | a + 1, 0, n, _, hb => by
    simp [subtreeDeep, children_eq_nil (Nat.sub_eq_zero_iff_le.1 (Nat.le_zero.1 hb))]
  | a + 1, b + 1, n, ha, hb => by
    rw [subtreeDeep, subtreeDeep]
    congr 1
    refine List.map_congr_left fun c hc => ?_
    have := h.mem_children_lt hc
    exact h.subtreeDeep_congr (by omega) (by omega)

/-- The subtree of a node is the node with the subtrees of its children. -/
theorem subtree_eq (h : d.Linked) (n : NodeId) :
    d.subtree n = .node (d.payload n) ((d.children n).map d.subtree) := by
  have hsize : d.size = d.size - 1 + 1 := (Nat.sub_add_cancel h.root_lt).symm
  have hdeep : d.subtreeDeep (d.size - 1 + 1) n =
      .node (d.payload n) ((d.children n).map (d.subtreeDeep (d.size - 1))) := rfl
  rw [subtree, hsize, hdeep]
  congr 1
  refine List.map_congr_left fun c hc => ?_
  have := h.mem_children_lt hc
  exact h.subtreeDeep_congr (by omega) (by omega)

/-- Two documents that agree at and below a node have the same subtree there. -/
theorem subtree_congr (h : d.Linked) (h' : d'.Linked) {n : NodeId}
    (hchildren : ∀ m, d.AtOrOver n m → d'.children m = d.children m)
    (hpayload : ∀ m, d.AtOrOver n m → d'.payload m = d.payload m) :
    d'.subtree n = d.subtree n := by
  induction n using h.induction_below with
  | step n ih =>
    rw [h.subtree_eq, h'.subtree_eq, hchildren n .refl, hpayload n .refl]
    congr 1
    refine List.map_congr_left fun c hc => ih c hc ?_ ?_
    · exact fun m hm => hchildren m (.head (h.mem_children_iff.1 hc) hm)
    · exact fun m hm => hpayload m (.head (h.mem_children_iff.1 hc) hm)

end Linked

theorem lt_size_of_atOrOver {n m : NodeId} (hn : n < d.size) (hm : d.AtOrOver n m) :
    m < d.size := by
  rcases atOrOver_iff.1 hm with rfl | hm
  · exact hn
  · exact Linked.lt_size_of_above hm

/-- The trees below a node. -/
def forest (d : Document) (n : NodeId) : List Tree :=
  (d.children n).map d.subtree

/-! ### What planting leaves alone -/

/-- A document grown at a node: the nodes that were there stay where they were, no other node has
new children, and only texts below the node may have become longer. -/
structure GrowsAt (d d' : Document) (p : NodeId) : Prop where
  /-- The links of the grown document fit together. -/
  linked : d'.Linked
  /-- No node is lost. -/
  size_le : d.size ≤ d'.size
  /-- No node is moved. -/
  parent : ∀ n < d.size, d'.parent? n = d.parent? n
  /-- Nothing is added below other nodes. -/
  children : ∀ n < d.size, n ≠ p → d'.children n = d.children n
  /-- What is not directly below the node is what it was. -/
  payload : ∀ n < d.size, ¬ d.Over p n → d'.payload n = d.payload n

namespace GrowsAt

variable {p : NodeId}

theorem refl (h : d.Linked) (p : NodeId) : d.GrowsAt d p :=
  ⟨h, Nat.le_refl _, fun _ _ => rfl, fun _ _ _ => rfl, fun _ _ _ => rfl⟩

theorem trans {d'' : Document} (h : d.GrowsAt d' p) (h' : d'.GrowsAt d'' p) :
    d.GrowsAt d'' p where
  linked := h'.linked
  size_le := Nat.le_trans h.size_le h'.size_le
  parent n hn := (h'.parent n (Nat.lt_of_lt_of_le hn h.size_le)).trans (h.parent n hn)
  children n hn hp :=
    (h'.children n (Nat.lt_of_lt_of_le hn h.size_le) hp).trans (h.children n hn hp)
  payload n hn hp := by
    have hp' : ¬ d'.Over p n := by rwa [Over, h.parent n hn]
    exact (h'.payload n (Nat.lt_of_lt_of_le hn h.size_le) hp').trans (h.payload n hn hp)

/-- The node itself stays what it is. -/
theorem payload_self (h : d.Linked) (hg : d.GrowsAt d' p) (hp : p < d.size) :
    d'.payload p = d.payload p :=
  hg.payload p hp fun hover => Nat.lt_irrefl _ (h.lt_of_parent? hover)

end GrowsAt

theorem payload_eq_getD (n : NodeId) :
    d.payload n = (d.nodes[n]?.map Node.payload).getD .document := by
  unfold payload
  split <;> simp [*]

theorem payload_push (p n : NodeId) (x : Payload) :
    (d.push p x).1.payload n = if n = d.size then x else d.payload n := by
  rw [payload_eq_getD, payload_eq_getD, getElem?_push]
  by_cases hn : n = d.size
  · simp [hn]
  · rw [if_neg hn, if_neg hn]
    split
    · rcases d.nodes[n]? with _ | node <;> rfl
    · rfl

theorem payload_modifyPayload (n m : NodeId) (f : Payload → Payload) (hm : m < d.size) :
    (d.modifyPayload n f).payload m = if n = m then f (d.payload m) else d.payload m := by
  obtain ⟨node, hnode⟩ := exists_node hm
  rw [payload_eq_getD, payload_eq_getD, getElem?_modifyPayload, hnode]
  split <;> rfl

theorem growsAt_push (h : d.Linked) {p : NodeId} (hp : p < d.size) (x : Payload) :
    d.GrowsAt (d.push p x).1 p where
  linked := linked_push h hp x
  size_le := (growsTo_push hp x).size_le
  parent n hn := by rw [parent?_push, if_neg (Nat.ne_of_lt hn)]
  children n hn hne := by rw [children_push hp, if_neg hne]
  payload n hn _ := by rw [payload_push, if_neg (Nat.ne_of_lt hn)]

/-- What grows at a new node grows at the node above it. -/
theorem GrowsAt.of_push (h : d.Linked) {p : NodeId} (hp : p < d.size) {x : Payload}
    (hg : (d.push p x).1.GrowsAt d' d.size) : d.GrowsAt d' p := by
  have hpush := growsAt_push h hp x
  refine ⟨hg.linked, Nat.le_trans hpush.size_le hg.size_le, fun n hn => ?_, fun n hn hne => ?_,
    fun n hn hover => ?_⟩
  · rw [hg.parent n (Nat.lt_of_lt_of_le hn hpush.size_le), hpush.parent n hn]
  · rw [hg.children n (Nat.lt_of_lt_of_le hn hpush.size_le) (Nat.ne_of_lt hn),
      hpush.children n hn hne]
  · have hnew : ¬ (d.push p x).1.Over d.size n := fun hnew =>
      Nat.lt_asymm hn (hpush.linked.lt_of_parent? hnew)
    rw [hg.payload n (Nat.lt_of_lt_of_le hn hpush.size_le) hnew, hpush.payload n hn hover]

/-! ### What planting adds -/

/-- A document with one more child below a node, with a tree at it: the node that has the new child
has no other one, and nothing else changes. -/
structure Gains (d d' : Document) (p id : NodeId) (t : Tree) : Prop where
  /-- The links of the grown document fit together. -/
  linked : d'.Linked
  /-- The child was not there. -/
  id_eq : id = d.size
  /-- The child is below the node. -/
  parent_id : d'.parent? id = some p
  /-- The tree stands at the child. -/
  subtree_id : d'.subtree id = t
  /-- The child stands behind the children that the node had. -/
  children_self : d'.children p = d.children p ++ [id]
  /-- Nothing is added below other nodes. -/
  children : ∀ n < d.size, n ≠ p → d'.children n = d.children n
  /-- No node is moved. -/
  parent : ∀ n < d.size, d'.parent? n = d.parent? n
  /-- Every node is what it was. -/
  payload : ∀ n < d.size, d'.payload n = d.payload n

/-- The trees below the node are those that were there and the new one. -/
theorem Gains.forest (h : d.Linked) {p id : NodeId} {t : Tree} (hg : d.Gains d' p id t) :
    d'.forest p = d.forest p ++ [t] := by
  have hold : ∀ c ∈ d.children p, d'.subtree c = d.subtree c := by
    intro c hc
    have hlt := h.mem_children_lt hc
    refine h.subtree_congr hg.linked (fun m hm => ?_) fun m hm => ?_
    · have hmp : m ≠ p := Nat.ne_of_gt (Nat.lt_of_lt_of_le hlt.1 (h.le_of_atOrOver hm))
      exact hg.children m (lt_size_of_atOrOver hlt.2 hm) hmp
    · exact hg.payload m (lt_size_of_atOrOver hlt.2 hm)
  rw [Document.forest, hg.children_self, List.map_append, List.map_congr_left hold,
    List.map_singleton, hg.subtree_id]
  rfl

/-- Where a new node grows on, the node above it has gained what comes of it. -/
theorem gains_of_push (h : d.Linked) {p : NodeId} (hp : p < d.size) {x : Payload}
    (hg : (d.push p x).1.GrowsAt d' d.size) : d.Gains d' p d.size (.node x (d'.forest d.size)) := by
  have hpush := growsAt_push h hp x
  have hsize : d.size < (d.push p x).1.size := by
    rw [size_push]
    exact Nat.lt_succ_self _
  refine ⟨hg.linked, rfl, ?_, ?_, ?_, (GrowsAt.of_push h hp hg).children,
    (GrowsAt.of_push h hp hg).parent, fun n hn => ?_⟩
  · rw [hg.parent d.size hsize, parent?_push, if_pos rfl]
  · rw [hg.linked.subtree_eq, hg.payload_self hpush.linked hsize, payload_push, if_pos rfl,
      Document.forest]
  · rw [hg.children p (Nat.lt_of_lt_of_le hp hpush.size_le) (Nat.ne_of_lt hp), children_push hp,
      if_pos rfl]
  · have hnot : ¬ (d.push p x).1.Over d.size n := fun hover =>
      Nat.lt_asymm hn (hpush.linked.lt_of_parent? hover)
    rw [hg.payload n (Nat.lt_of_lt_of_le hn hpush.size_le) hnot, payload_push,
      if_neg (Nat.ne_of_lt hn)]

/-- There is nothing below a new node. -/
theorem forest_new {p : NodeId} (hp : p < d.size) (x : Payload) :
    (d.push p x).1.forest d.size = [] := by
  rw [forest, children_push hp, if_neg (Nat.ne_of_gt hp), children_eq_nil (Nat.le_refl _)]
  rfl

theorem forest_push (h : d.Linked) {p : NodeId} (hp : p < d.size) (x : Payload) :
    (d.push p x).1.forest p = d.forest p ++ [.node x []] := by
  rw [(gains_of_push h hp (.refl (linked_push h hp x) d.size)).forest h, forest_new hp]

theorem getLast?_forest (p : NodeId) : (d.forest p).getLast? = (d.lastChild? p).map d.subtree := by
  rw [forest, List.getLast?_map, lastChild?_eq]

/-- Character data that joins a text makes it longer. -/
theorem forest_extend (h : d.Linked) {p last : NodeId} {t : String}
    (hlast : d.lastChild? p = some last) (htext : d.payload last = .text t) (s : String) :
    (d.modifyPayload last (Payload.extend s)).forest p = Tree.joinText (d.forest p) s := by
  rw [lastChild?_eq, List.getLast?_eq_some_iff] at hlast
  obtain ⟨before, hbefore⟩ := hlast
  have hlinked := h.modifyPayload last (Payload.extend s)
  have hmem : last ∈ d.children p := by simp [hbefore]
  have hlt := h.mem_children_lt hmem
  -- Only trees that hold the text change, and no other child of `p` holds it.
  have hother : ∀ n, n < d.size → ¬ d.AtOrOver n last →
      (d.modifyPayload last (Payload.extend s)).subtree n = d.subtree n := by
    intro n hn hnot
    refine h.subtree_congr hlinked (fun m _ => children_modifyPayload ..) fun m hm => ?_
    rw [payload_modifyPayload _ _ _ (lt_size_of_atOrOver hn hm), if_neg]
    rintro rfl
    exact hnot hm
  have hbelow : ∀ c ∈ d.children last,
      (d.modifyPayload last (Payload.extend s)).subtree c = d.subtree c := by
    intro c hc
    have hc' := h.mem_children_lt hc
    exact hother c hc'.2 fun hover => Nat.not_lt_of_le (h.le_of_atOrOver hover) hc'.1
  have hfront : ∀ c ∈ before,
      (d.modifyPayload last (Payload.extend s)).subtree c = d.subtree c := by
    intro c hc
    have hcmem : c ∈ d.children p := by simp [hbefore, hc]
    refine hother c (h.mem_children_lt hcmem).2 fun hover => ?_
    have hascending := h.ascending p
    rw [hbefore, List.pairwise_append] at hascending
    have hclt : c < last := hascending.2.2 c hc last (by simp)
    have habove := (atOrOver_iff.1 hover).resolve_left (Nat.ne_of_gt hclt)
    have hcp := h.le_of_atOrOver (habove.atOrOver (h.mem_children_iff.1 hmem))
    exact Nat.not_lt_of_le hcp (h.mem_children_lt hcmem).1
  have hsubtree : (d.modifyPayload last (Payload.extend s)).subtree last =
      .node (.text (t ++ s)) ((d.children last).map d.subtree) := by
    rw [hlinked.subtree_eq, payload_modifyPayload _ _ _ hlt.2, if_pos rfl, htext,
      children_modifyPayload, List.map_congr_left hbelow, Payload.extend]
  rw [forest, forest, children_modifyPayload, hbefore, List.map_append, List.map_append,
    List.map_singleton, List.map_singleton, hsubtree, h.subtree_eq last, htext,
    Tree.joinText_concat, List.map_congr_left hfront]

theorem growsAt_extend (h : d.Linked) {p last : NodeId} (hlast : d.lastChild? p = some last)
    (s : String) : d.GrowsAt (d.modifyPayload last (Payload.extend s)) p := by
  refine ⟨h.modifyPayload _ _, Nat.le_of_eq (size_modifyPayload ..).symm,
    fun n _ => parent?_modifyPayload .., fun n _ _ => children_modifyPayload ..,
    fun n hn hover => ?_⟩
  rw [payload_modifyPayload _ _ _ hn, if_neg]
  rintro rfl
  rw [lastChild?_eq] at hlast
  exact hover (h.mem_children_iff.1 (List.mem_of_getLast? hlast))

theorem appendText_spec (h : d.Linked) {p : NodeId} (hp : p < d.size) (s : String) :
    d.GrowsAt (d.appendText p s).1 p ∧
      (d.appendText p s).1.forest p = Tree.joinText (d.forest p) s := by
  refine appendText_keeps
    (P := fun d' => d.GrowsAt d' p ∧ d'.forest p = Tree.joinText (d.forest p) s)
    (fun last hlast htext => ?_) fun hlast => ?_
  · obtain ⟨t, ht⟩ := isText_iff.1 htext
    exact ⟨growsAt_extend h hlast s, forest_extend h hlast ht s⟩
  · refine ⟨growsAt_push h hp _, ?_⟩
    rw [forest_push h hp, Tree.joinText_eq_concat]
    intro t below heq
    rw [getLast?_forest, Option.map_eq_some_iff] at heq
    obtain ⟨last, hmem, heq⟩ := heq
    rw [h.subtree_eq] at heq
    injection heq with hpayload
    exact Bool.false_ne_true ((hlast last hmem).symm.trans (isText_iff.2 ⟨t, hpayload⟩))

mutual

/-- A planted tree stands behind the trees that are there, and nothing else changes. -/
theorem plant_spec : ∀ (t : Tree) {d : Document} {p : NodeId}, d.Linked → p < d.size →
    d.GrowsAt (d.plant p t) p ∧ (d.plant p t).forest p = Tree.settle (d.forest p) t
  | .node payload ts, d, p, h, hp => by
    have hnode : ∀ x : Payload,
        d.GrowsAt ((d.push p x).1.plantAll d.size ts) p ∧
          ((d.push p x).1.plantAll d.size ts).forest p =
            d.forest p ++ [.node x (Tree.settleAll [] ts)] := by
      intro x
      have hnew : d.size < (d.push p x).1.size := by
        rw [size_push]
        exact Nat.lt_succ_self _
      obtain ⟨hgrows, hforest⟩ := plantAll_spec ts (linked_push h hp x) hnew
      rw [forest_new hp] at hforest
      refine ⟨.of_push h hp hgrows, ?_⟩
      rw [← hforest]
      exact (gains_of_push h hp hgrows).forest h
    cases payload with
    | text s => exact appendText_spec h hp s
    | document => exact plantAll_spec ts h hp
    | element e => exact hnode _
    | comment s => exact hnode _
    | instruction target s => exact hnode _

/-- A planted forest stands behind the trees that are there, and nothing else changes. -/
theorem plantAll_spec : ∀ (ts : List Tree) {d : Document} {p : NodeId}, d.Linked → p < d.size →
    d.GrowsAt (d.plantAll p ts) p ∧ (d.plantAll p ts).forest p = Tree.settleAll (d.forest p) ts
  | [], d, p, h, _ => ⟨.refl h p, rfl⟩
  | t :: ts, d, p, h, hp => by
    obtain ⟨hgrows, hforest⟩ := plant_spec t h hp
    obtain ⟨hgrows', hforest'⟩ :=
      plantAll_spec ts hgrows.linked (Nat.lt_of_lt_of_le hp hgrows.size_le)
    unfold plantAll Tree.settleAll
    exact ⟨hgrows.trans hgrows', by rw [hforest', hforest]⟩

end

theorem plantAll_append (d : Document) (p : NodeId) : ∀ ts us : List Tree,
    d.plantAll p (ts ++ us) = (d.plantAll p ts).plantAll p us
  | [], _ => rfl
  | t :: ts, us => plantAll_append (d.plant p t) p ts us

theorem linked_ofForest (ts : List Tree) : (ofForest ts).Linked :=
  (plantAll_spec ts linked_empty linked_empty.root_lt).1.linked

/-- The document of a forest is, as a tree, the forest with its texts joined. -/
theorem tree_ofForest (ts : List Tree) :
    (ofForest ts).tree = .node .document (Tree.settleAll [] ts) := by
  obtain ⟨hgrows, hforest⟩ := plantAll_spec ts linked_empty linked_empty.root_lt
  have hroot : (ofForest ts).payload root = .document :=
    hgrows.payload_self linked_empty linked_empty.root_lt
  rw [tree, (linked_ofForest ts).subtree_eq]
  exact congrArg₂ Tree.node hroot hforest

end Document

end MarkupRules.Markup
