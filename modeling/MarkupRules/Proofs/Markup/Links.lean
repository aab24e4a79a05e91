/-
# The links of a document

Parents and children are kept apart in the table of a document, and nothing in the type makes
them agree. They agree in every document that is built by its operations: a node is a child of
the node above it and of no other, and it stands behind that node and behind the children added
earlier. So the parents lead down to the document node, and every walk through the children
comes to an end.

Key definitions: `Document.Linked`, `Document.GrowsTo`.

Key theorems: `linked_push`, `Linked.modifyPayload`, `growsTo_appendText`, `growsTo_copyNode`,
`graft_keeps`, `growsTo_graft`.
-/
import MarkupRules.Markup.Edit

namespace MarkupRules.Markup.Document

/-! ### What the operations change -/

theorem getElem?_eq_none {d : Document} {n : NodeId} (hn : d.size ≤ n) : d.nodes[n]? = none :=
  Array.getElem?_eq_none_iff.2 hn

theorem exists_node {d : Document} {n : NodeId} (hn : n < d.size) :
    ∃ node, d.nodes[n]? = some node :=
  ⟨d.nodes[n], Array.getElem?_eq_getElem hn⟩

theorem lt_size_of_parent? {d : Document} {n p : Nat} (h : d.parent? n = some p) :
    n < d.size := by
  rcases Nat.lt_or_ge n d.size with hn | hn
  · exact hn
  · simp [parent?, getElem?_eq_none hn] at h

theorem children_eq_nil {d : Document} {n : NodeId} (hn : d.size ≤ n) : d.children n = [] := by
  simp [children, getElem?_eq_none hn]

theorem lastChild?_eq (d : Document) (n : NodeId) : d.lastChild? n = (d.children n).getLast? := by
  rcases hn : d.nodes[n]? with _ | node
  · simp [lastChild?, children, hn]
  · simp [lastChild?, children, hn, Array.getLast?_toList]

theorem size_push (d : Document) (p : NodeId) (x : Payload) :
    (d.push p x).1.size = d.size + 1 := by
  simp [push, size]

theorem getElem?_push (d : Document) (p n : NodeId) (x : Payload) :
    (d.push p x).1.nodes[n]? =
      if n = d.size then some ⟨x, some p, #[]⟩
      else if p = n then
        d.nodes[n]?.map fun node => { node with children := node.children.push d.size }
      else d.nodes[n]? := by
  simp only [push, Array.getElem?_push, Array.size_modify, Array.getElem?_modify]
  rfl

theorem parent?_push (d : Document) (p n : NodeId) (x : Payload) :
    (d.push p x).1.parent? n = if n = d.size then some p else d.parent? n := by
  rw [parent?, getElem?_push]
  by_cases hn : n = d.size
  · simp [hn]
  · rw [if_neg hn, if_neg hn]
    split
    · rcases hnode : d.nodes[n]? with _ | node <;> simp [parent?, hnode]
    · rfl

theorem children_push {d : Document} {p : NodeId} (hp : p < d.size) (n : NodeId) (x : Payload) :
    (d.push p x).1.children n =
      if n = p then d.children p ++ [d.size] else d.children n := by
  simp only [children, getElem?_push]
  by_cases hnp : n = p
  · subst hnp
    obtain ⟨node, hnode⟩ := exists_node hp
    simp [Nat.ne_of_lt hp, hnode]
  · by_cases hn : n = d.size
    · subst hn
      simp [hnp, getElem?_eq_none (Nat.le_refl d.size)]
    · simp [hn, hnp, Ne.symm hnp]

section Payload

variable (d : Document) (n m : NodeId) (f : Payload → Payload)

theorem getElem?_modifyPayload :
    (d.modifyPayload n f).nodes[m]? =
      if n = m then d.nodes[m]?.map fun node => { node with payload := f node.payload }
      else d.nodes[m]? := by
  rw [modifyPayload, Array.getElem?_modify]

@[simp] theorem size_modifyPayload : (d.modifyPayload n f).size = d.size := by
  simp [modifyPayload, size]

@[simp] theorem parent?_modifyPayload : (d.modifyPayload n f).parent? m = d.parent? m := by
  rw [parent?, getElem?_modifyPayload]
  split
  · rcases hm : d.nodes[m]? with _ | node <;> simp [parent?, hm]
  · rfl

@[simp] theorem children_modifyPayload : (d.modifyPayload n f).children m = d.children m := by
  simp only [children, getElem?_modifyPayload]
  by_cases hnm : n = m
  · rcases d.nodes[m]? with _ | node <;> simp [hnm]
  · rw [if_neg hnm]

end Payload

section Texts

variable {d : Document} {p last : NodeId}

theorem isText_iff {n : NodeId} : d.isText n ↔ ∃ s, d.payload n = .text s := by
  unfold isText
  split
  · next s hs => simp [hs]
  · next hs => simpa using hs

/-- Character data joins a text that ends the children so far. -/
theorem appendText_of_isText (hlast : d.lastChild? p = some last) (htext : d.isText last)
    (s : String) : d.appendText p s = (d.modifyPayload last (Payload.extend s), last) := by
  unfold appendText
  rw [hlast]
  exact if_pos htext

/-- Behind anything but a text, character data is a node of its own. -/
theorem appendText_of_isText_eq_false (h : ∀ last ∈ d.lastChild? p, d.isText last = false)
    (s : String) : d.appendText p s = d.push p (.text s) := by
  unfold appendText
  split
  · next last hlast => exact if_neg (Bool.eq_false_iff.1 (h last hlast))
  · rfl

/-- What holds whether character data joins a text or is a node of its own holds of a document with
more of it. -/
theorem appendText_keeps {P : Document → Prop} {s : String}
    (hjoin : ∀ last ∈ d.lastChild? p, d.isText last → P (d.modifyPayload last (Payload.extend s)))
    (hadd : (∀ last ∈ d.lastChild? p, d.isText last = false) → P (d.push p (.text s)).1) :
    P (d.appendText p s).1 := by
  by_cases h : ∃ last ∈ d.lastChild? p, d.isText last
  · obtain ⟨last, hlast, htext⟩ := h
    rw [appendText_of_isText hlast htext]
    exact hjoin last hlast htext
  · have hnone : ∀ last ∈ d.lastChild? p, d.isText last = false := fun last hlast =>
      Bool.eq_false_iff.2 fun htext => h ⟨last, hlast, htext⟩
    rw [appendText_of_isText_eq_false hnone]
    exact hadd hnone

end Texts

/-! ### Documents whose links fit together -/

/-- The links of a document fit together: there is a document node above which there is nothing,
every other node has a node above it that was there before, children are exactly the nodes that
have the node above them, and they are listed in the order in which they were added. -/
structure Linked (d : Document) : Prop where
  /-- There is a document node. -/
  root_lt : root < d.size
  /-- Nothing is above the document node. -/
  parent_root : d.parent? root = none
  /-- Every other node is below an earlier one. -/
  parent_lt : ∀ n : Nat, n < d.size → n ≠ root → ∃ p : Nat, p < n ∧ d.parent? n = some p
  /-- Parents and children agree. -/
  mem_children : ∀ p n, n ∈ d.children p ↔ d.parent? n = some p
  /-- Children come in the order in which they were added. -/
  ascending : ∀ p, (d.children p).Pairwise (· < ·)

/-- A document turned into another one with at least its nodes, of which the links fit
together if they did before. -/
structure GrowsTo (d d' : Document) : Prop where
  /-- The links still fit. -/
  linked : d.Linked → d'.Linked
  /-- No node is lost. -/
  size_le : d.size ≤ d'.size

namespace GrowsTo

theorem refl (d : Document) : d.GrowsTo d := ⟨id, Nat.le_refl _⟩

theorem trans {a b c : Document} (hab : a.GrowsTo b) (hbc : b.GrowsTo c) : a.GrowsTo c :=
  ⟨fun h => hbc.linked (hab.linked h), Nat.le_trans hab.size_le hbc.size_le⟩

end GrowsTo

/-- The links of a document are all that counts. -/
theorem Linked.congr {d d' : Document} (h : d.Linked) (hsize : d'.size = d.size)
    (hparent : ∀ n, d'.parent? n = d.parent? n) (hchildren : ∀ n, d'.children n = d.children n) :
    d'.Linked where
  root_lt := hsize ▸ h.root_lt
  parent_root := (hparent root).trans h.parent_root
  parent_lt n hn hr := by
    obtain ⟨p, hp, hnp⟩ := h.parent_lt n (hsize ▸ hn) hr
    exact ⟨p, hp, (hparent n).trans hnp⟩
  mem_children p n := by rw [hchildren, hparent]; exact h.mem_children p n
  ascending p := by rw [hchildren]; exact h.ascending p

theorem linked_empty : empty.Linked where
  root_lt := by decide
  parent_root := rfl
  parent_lt n hn hr := absurd (Nat.lt_one_iff.1 hn) hr
  mem_children p n := by
    match p, n with
    | 0, 0 => decide
    | 0, n + 1 => simp [empty, children, parent?]
    | p + 1, 0 => simp [empty, children, parent?]
    | p + 1, n + 1 => simp [empty, children, parent?]
  ascending p := by
    match p with
    | 0 => exact List.Pairwise.nil
    | p + 1 => simp [empty, children]

theorem Linked.lt_of_parent? {d : Document} (h : d.Linked) {n p : Nat}
    (hn : d.parent? n = some p) : p < n := by
  have hr : n ≠ root := by
    rintro rfl
    rw [h.parent_root] at hn
    cases hn
  obtain ⟨q, hq, hnq⟩ := h.parent_lt n (lt_size_of_parent? hn) hr
  rw [hnq] at hn
  cases hn
  exact hq

theorem Linked.mem_children_lt {d : Document} (h : d.Linked) {n p : Nat}
    (hn : n ∈ d.children p) : p < n ∧ n < d.size :=
  have hparent := (h.mem_children p n).1 hn
  ⟨h.lt_of_parent? hparent, lt_size_of_parent? hparent⟩

theorem linked_push {d : Document} (h : d.Linked) {p : NodeId} (hp : p < d.size) (x : Payload) :
    (d.push p x).1.Linked where
  root_lt := by
    rw [size_push]
    exact Nat.lt_succ_of_lt h.root_lt
  parent_root := by
    rw [parent?_push, if_neg (Nat.ne_of_lt h.root_lt), h.parent_root]
  parent_lt n hn hr := by
    rw [size_push] at hn
    rw [parent?_push]
    by_cases hnew : n = d.size
    · exact ⟨p, hnew ▸ hp, if_pos hnew⟩
    · obtain ⟨q, hq, hnq⟩ := h.parent_lt n (by omega) hr
      exact ⟨q, hq, (if_neg hnew).trans hnq⟩
  mem_children q n := by
    have hnone : d.parent? d.size ≠ some q := fun he => Nat.lt_irrefl _ (lt_size_of_parent? he)
    have hmem := h.mem_children q n
    rw [parent?_push, children_push hp]
    by_cases hq : q = p
    · subst hq
      by_cases hnew : n = d.size
      · simp [hnew]
      · simp [hnew, hmem]
    · by_cases hnew : n = d.size
      · subst hnew
        simp [hq, Ne.symm hq, hmem, hnone]
      · simp [hq, hnew, hmem]
  ascending q := by
    rw [children_push hp]
    split
    · refine List.pairwise_append.2 ⟨h.ascending p, List.pairwise_singleton _ _, ?_⟩
      intro a ha b hb
      rw [List.mem_singleton.1 hb]
      exact (h.mem_children_lt ha).2
    · exact h.ascending q

theorem Linked.modifyPayload {d : Document} (h : d.Linked) (n : NodeId)
    (f : Payload → Payload) : (d.modifyPayload n f).Linked :=
  h.congr (size_modifyPayload ..) (fun m => parent?_modifyPayload d n m f)
    fun m => children_modifyPayload d n m f

theorem Linked.modifyElement {d : Document} (h : d.Linked) (n : NodeId)
    (f : Element → Element) : (d.modifyElement n f).Linked :=
  h.modifyPayload n _

theorem Linked.withOrigin {d : Document} (h : d.Linked) (origin : Option String) :
    (d.withOrigin origin).Linked :=
  h.congr rfl (fun _ => rfl) fun _ => rfl

/-! ### What the operations add to -/

theorem growsTo_push {d : Document} {p : NodeId} (hp : p < d.size) (x : Payload) :
    d.GrowsTo (d.push p x).1 :=
  ⟨fun h => linked_push h hp x, by rw [size_push]; exact Nat.le_succ _⟩

theorem growsTo_modifyPayload (d : Document) (n : NodeId) (f : Payload → Payload) :
    d.GrowsTo (d.modifyPayload n f) :=
  ⟨fun h => h.modifyPayload n f, Nat.le_of_eq (size_modifyPayload d n f).symm⟩

theorem growsTo_appendText {d : Document} {p : NodeId} (hp : p < d.size) (t : String) :
    d.GrowsTo (d.appendText p t).1 :=
  appendText_keeps (fun _ _ _ => growsTo_modifyPayload ..) fun _ => growsTo_push hp _

theorem growsTo_copyNode {d : Document} {p : NodeId} (hp : p < d.size) (source : Document)
    (n : NodeId) : d.GrowsTo (d.copyNode p source n).1 := by
  rw [copyNode]
  split
  · exact .refl d
  · exact growsTo_appendText hp _
  · exact growsTo_push hp _

/-! ### What grafts keep -/

/-- What one step keeps when it adds below a node, steps for all items of a list keep. -/
theorem foldl_keeps {α : Type} {P : Document → Prop} {p : NodeId} {step : Document → α → Document}
    (hstep : ∀ d x, P d → p < d.size → P (step d x) ∧ d.size ≤ (step d x).size) :
    ∀ (xs : List α) (d : Document), P d → p < d.size →
      P (xs.foldl step d) ∧ d.size ≤ (xs.foldl step d).size
  | [], d, h, _ => ⟨h, Nat.le_refl d.size⟩
  | x :: xs, d, h, hp =>
    have hx := hstep d x h hp
    have hxs := foldl_keeps hstep xs (step d x) hx.1 (Nat.lt_of_lt_of_le hp hx.2)
    ⟨hxs.1, Nat.le_trans hx.2 hxs.2⟩

section Grafts

variable {source : Document} {P : Document → Prop}
  (hpush : ∀ {d : Document} {p n : NodeId}, P d → p < d.size → source.payload n ≠ .document →
    (∀ s, source.payload n ≠ .text s) → P (d.push p (source.payload n)).1)
  (htext : ∀ {d : Document} {p : NodeId} (s : String), P d → p < d.size → P (d.appendText p s).1)

include hpush htext

/-- A graft is a sequence of steps: nodes of the source that are neither document nodes nor character
data are added, and so is character data. What both steps keep, a graft keeps. -/
theorem graftDeep_keeps : ∀ (fuel : Nat) (d : Document) (p n : NodeId), P d → p < d.size →
    P (graftDeep source fuel d p n).1 ∧ d.size ≤ (graftDeep source fuel d p n).1.size
  | 0, d, _, _, h, _ => ⟨h, Nat.le_refl d.size⟩
  | fuel + 1, d, p, n, h, hp => by
    have ih : ∀ (q : NodeId) (d : Document) (c : NodeId), P d → q < d.size →
        P (graftDeep source fuel d q c).1 ∧ d.size ≤ (graftDeep source fuel d q c).1.size :=
      fun q d c => graftDeep_keeps fuel d q c
    rw [graftDeep]
    split
    · exact foldl_keeps (ih p) _ d h hp
    · exact ⟨htext _ h hp, (growsTo_appendText hp _).size_le⟩
    · next hdocument hplain =>
      have hnew : (d.push p (source.payload n)).2 < (d.push p (source.payload n)).1.size := by
        rw [size_push]
        exact Nat.lt_succ_self _
      have hall := foldl_keeps (ih _) (source.children n) _ (hpush h hp hdocument hplain) hnew
      exact ⟨hall.1, Nat.le_trans (growsTo_push hp _).size_le hall.2⟩

theorem graft_keeps {d : Document} {p : NodeId} (h : P d) (hp : p < d.size) (n : NodeId) :
    P (d.graft p source n).1 :=
  (graftDeep_keeps hpush htext _ d p n h hp).1

end Grafts

theorem growsTo_graft {d : Document} {p : NodeId} (hp : p < d.size) (source : Document)
    (n : NodeId) : d.GrowsTo (d.graft p source n).1 :=
  graft_keeps (fun h hp _ _ => h.trans (growsTo_push hp _))
    (fun s h hp => h.trans (growsTo_appendText hp s)) (.refl d) hp n

end MarkupRules.Markup.Document
