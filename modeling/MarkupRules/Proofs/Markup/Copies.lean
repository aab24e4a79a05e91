/-
# Copies of subtrees

To graft a node is to plant its subtree. Where no character data stands next to character data and
nothing below it, a subtree is planted as it is: the copy is a new last child with the same tree,
and nothing else changes. Only character data behind character data makes no node of its own: it
makes the text in front of it longer.

Key definition: `Document.Lengthens`.

Key theorems: `graft_eq_plant`, `graft_of_document`, `gains_plantAll`, `Built.textsApart`,
`graft_copies_subtree`.
-/
import MarkupRules.Proofs.Markup.Settled
import MarkupRules.Proofs.Markup.WellFormed

namespace MarkupRules.Markup

namespace Document

variable {d source : Document} {p n : NodeId}

/-! ### Grafts and plants -/

theorem plantAll_map {α : Type} (f : α → Tree) (p : NodeId) : ∀ (xs : List α) (d : Document),
    d.plantAll p (xs.map f) = xs.foldl (fun d x => d.plant p (f x)) d
  | [], _ => rfl
  | x :: xs, d => plantAll_map f p xs (d.plant p (f x))

theorem plant_node {x : Payload} (hdocument : x ≠ .document) (htext : ∀ s, x ≠ .text s)
    (ts : List Tree) : d.plant p (.node x ts) = (d.push p x).1.plantAll d.size ts := by
  cases x with
  | document => exact absurd rfl hdocument
  | text s => exact absurd rfl (htext s)
  | element e => rfl
  | comment s => rfl
  | instruction target s => rfl

/-- A node is grafted as it is planted if what is below it is. -/
theorem graftDeep_succ_eq_plant {levels : Nat} {ts : List Tree}
    (hbelow : ∀ (d : Document) (q : NodeId),
      (source.children n).foldl (fun d c => (graftDeep source levels d q c).1) d =
        d.plantAll q ts) :
    (graftDeep source (levels + 1) d p n).1 = d.plant p (.node (source.payload n) ts) := by
  rw [graftDeep]
  cases source.payload n with
  | document => exact hbelow d p
  | text s => rfl
  | element e => exact hbelow _ d.size
  | comment s => exact hbelow _ d.size
  | instruction target s => exact hbelow _ d.size

/-- To graft some levels of a node is to plant them. -/
theorem graftDeep_eq_plant (source : Document) : ∀ (levels : Nat) (d : Document) (p n : NodeId),
    (graftDeep source (levels + 1) d p n).1 = d.plant p (source.subtreeDeep levels n)
  | 0, _, _, n => graftDeep_succ_eq_plant fun _ _ => List.foldl_fixed (source.children n)
  | levels + 1, _, _, n => graftDeep_succ_eq_plant fun d q => by
    rw [plantAll_map]
    congr 1
    funext d c
    exact graftDeep_eq_plant source levels d q c

/-- To graft a node is to plant what is at it and below it. -/
theorem graft_eq_plant (d : Document) (p : NodeId) (source : Document) (n : NodeId) :
    (d.graft p source n).1 = d.plant p (source.subtree n) :=
  graftDeep_eq_plant source source.size d p n

theorem graft_of_text {s : String} (hs : source.payload n = .text s) :
    d.graft p source n = d.appendText p s := by
  unfold graft graftDeep
  rw [hs]

/-- Of a document node, the children are grafted one after the other. -/
theorem graft_of_document (hsource : source.Linked) (hn : source.payload n = .document) :
    d.graft p source n = ((source.children n).foldl (fun d c => (d.graft p source c).1) d, p) := by
  refine Prod.ext ?_ ?_
  · calc (d.graft p source n).1
        = d.plant p (source.subtree n) := graft_eq_plant d p source n
      _ = d.plantAll p ((source.children n).map source.subtree) := by
          rw [hsource.subtree_eq, hn]
          rfl
      _ = (source.children n).foldl (fun d c => d.plant p (source.subtree c)) d :=
          plantAll_map source.subtree p (source.children n) d
      _ = (source.children n).foldl (fun d c => (d.graft p source c).1) d := by
          simp only [graft_eq_plant]
  · unfold graft graftDeep
    rw [hn]

/-- What is no document node, and no character data that joins a text, is grafted as a new node on
which the trees below it are planted. -/
theorem graft_eq_push (hsource : source.Linked) (hleaves : source.TextLeaves)
    (hdocument : source.payload n ≠ .document)
    (hlast : source.isText n → ∀ last ∈ d.lastChild? p, d.isText last = false) :
    d.graft p source n =
      ((d.push p (source.payload n)).1.plantAll d.size (source.forest n), d.size) := by
  by_cases htext : source.isText n
  · obtain ⟨s, hs⟩ := isText_iff.1 htext
    rw [graft_of_text hs, appendText_of_isText_eq_false (hlast htext), forest, hleaves n htext, hs]
    rfl
  · have hplain : ∀ s, source.payload n ≠ .text s := fun s hs => htext (isText_iff.2 ⟨s, hs⟩)
    refine Prod.ext ?_ ?_
    · rw [graft_eq_plant, hsource.subtree_eq, plant_node hdocument hplain]
      rfl
    · unfold graft graftDeep
      split
      · next h => exact absurd h hdocument
      · next s h => exact absurd h (hplain s)
      · rfl

/-! ### What is planted on a new node -/

/-- Firm trees that are planted on a new node stand there as they are. -/
theorem gains_plantAll (h : d.Linked) (hp : p < d.size) (x : Payload) {ts : List Tree}
    (hfirm : ∀ t ∈ ts, Tree.Firm t) (happart : Tree.Apart ts) :
    d.Gains ((d.push p x).1.plantAll d.size ts) p d.size (.node x ts) := by
  have hnew : d.size < (d.push p x).1.size := by
    rw [size_push]
    exact Nat.lt_succ_self _
  obtain ⟨hgrows, hforest⟩ := plantAll_spec ts (linked_push h hp x) hnew
  have hgains := gains_of_push h hp hgrows
  rwa [hforest, forest_new hp, Tree.settleAll_of_firm ts hfirm happart (by simp),
    List.nil_append] at hgains

/-! ### Texts that grow -/

/-- A text of a document has new content, and nothing else changes. -/
structure Lengthens (d d' : Document) (last : NodeId) (s : String) : Prop where
  /-- No node is added. -/
  size : d'.size = d.size
  /-- The text has the new content. -/
  payload_self : d'.payload last = .text s
  /-- Every other node is what it was. -/
  payload : ∀ n, n ≠ last → d'.payload n = d.payload n
  /-- No node is moved. -/
  parent : ∀ n, d'.parent? n = d.parent? n
  /-- Every node has the children that it had. -/
  children : ∀ n, d'.children n = d.children n

theorem lengthens_extend {last : NodeId} {t : String} (ht : d.payload last = .text t)
    (s : String) : d.Lengthens (d.modifyPayload last (Payload.extend s)) last (t ++ s) where
  size := size_modifyPayload ..
  payload_self := by
    have hlast : last < d.size := Nat.lt_of_not_le fun hle => by
      simp [payload, getElem?_eq_none hle] at ht
    rw [payload_modifyPayload _ _ _ hlast, if_pos rfl, ht]
    rfl
  payload n hn := by
    rw [payload_eq_getD, payload_eq_getD, getElem?_modifyPayload, if_neg hn.symm]
  parent n := parent?_modifyPayload ..
  children n := children_modifyPayload ..

/-! ### Texts apart in whatever is built -/

theorem apart_modifyElement (h : d.Linked) (hapart : d.TextsApart) (n : NodeId)
    (f : Element → Element) : (d.modifyElement n f).TextsApart := by
  refine apart_modifyPayload h hapart n fun x => ?_
  cases x <;> simp

theorem apart_appendText (h : d.Linked) (hp : p < d.size) (hapart : d.TextsApart) (s : String) :
    (d.appendText p s).1.TextsApart :=
  appendText_keeps (P := TextsApart) (fun last _ _ => apart_extend h hapart last s)
    fun hlast => apart_push h hp hapart fun _ _ => hlast

theorem apart_copyNode (h : d.Linked) (hp : p < d.size) (hapart : d.TextsApart)
    (source : Document) (n : NodeId) : (d.copyNode p source n).1.TextsApart := by
  rw [copyNode]
  split
  · exact hapart
  · exact apart_appendText h hp hapart _
  · next htext => exact apart_push h hp hapart fun s hs => absurd hs (htext s)

theorem apart_graft (h : d.Linked) (hp : p < d.size) (hapart : d.TextsApart)
    (source : Document) (n : NodeId) : (d.graft p source n).1.TextsApart :=
  (graft_keeps (P := fun d => d.Linked ∧ d.TextsApart)
    (fun h hp _ htext => ⟨linked_push h.1 hp _,
      apart_push h.1 hp h.2 fun s hs => absurd hs (htext s)⟩)
    (fun s h hp => ⟨(growsTo_appendText hp s).linked h.1, apart_appendText h.1 hp h.2 s⟩)
    ⟨h, hapart⟩ hp n).2

end Document

open Document

/-- In every document that can be built, texts stand apart. -/
theorem Built.textsApart {d : Document} (h : Built d) : d.TextsApart := by
  induction h with
  | empty => exact wellFormed_empty.shaped.apart
  | read h => exact (WellFormed.of_read h).shaped.apart
  | withOrigin origin _ ih => exact ih
  | appendElement name h hp ih => exact apart_push h.linked hp ih nofun
  | appendText content h hp ih => exact apart_appendText h.linked hp ih content
  | appendComment content h hp ih => exact apart_push h.linked hp ih nofun
  | setAttribute n name value h ih => exact apart_modifyElement h.linked ih n _
  | removeAttribute n localPart h ih => exact apart_modifyElement h.linked ih n _
  | bind n label uri h ih => exact apart_modifyElement h.linked ih n _
  | copyNode h _ hp _ ih _ => exact apart_copyNode h.linked hp ih _ _
  | graft h _ hp _ ih _ => exact apart_graft h.linked hp ih _ _

namespace Document

variable {d source : Document} {p n : NodeId}

/-- A graft takes a node of a document, in which nothing is below character data, to a new last
child with the same tree, and nothing else changes in the document it is put in. Only character data
behind a text is no node of its own: it comes to the end of that text, and again nothing else
changes. Of a document node, the children are grafted one after the other. -/
theorem graft_copies_subtree (h : Built d) (hsource : Built source) (hleaves : source.TextLeaves)
    (hp : p < d.size) :
    (source.payload n ≠ .document →
      (source.isText n → ∀ last ∈ d.lastChild? p, d.isText last = false) →
        d.Gains (d.graft p source n).1 p (d.graft p source n).2 (source.subtree n)) ∧
    (∀ s last t, source.payload n = .text s → d.lastChild? p = some last →
      d.payload last = .text t → (d.graft p source n).2 = last ∧
        d.Lengthens (d.graft p source n).1 last (t ++ s)) ∧
    (source.payload n = .document →
      d.graft p source n =
        ((source.children n).foldl (fun d c => (d.graft p source c).1) d, p)) := by
  refine ⟨fun hdocument hlast => ?_, fun s last t hs hlast ht => ?_,
    graft_of_document hsource.linked⟩
  · rw [graft_eq_push hsource.linked hleaves hdocument hlast, hsource.linked.subtree_eq]
    exact gains_plantAll h.linked hp _
      (hsource.textsApart.firm_forest hsource.linked hsource.rooted hleaves n)
      (hsource.textsApart.apart_forest hsource.linked n)
  · rw [graft_of_text hs, appendText_of_isText hlast (isText_iff.2 ⟨t, ht⟩)]
    exact ⟨rfl, lengthens_extend ht s⟩

theorem textLeaves_shelf : shelf.TextLeaves := by
  intro n hn
  rcases Nat.lt_or_ge n shelf.size with hlt | hge
  · have hleaves : ∀ m < shelf.size, shelf.isText m → shelf.children m = [] := by decide
    exact hleaves n hlt hn
  · exact children_eq_nil hge

/-- The shelf is copied into its first book, and so is the text of that book, which gets longer. -/
theorem graft_copies_subtree_of_shelf :
    shelf.Gains (shelf.graft 2 shelf 1).1 2 6 (shelf.subtree 1) ∧
      shelf.Lengthens (shelf.graft 2 shelf 3).1 3 "xx" ∧
      shelf.graft 2 shelf root =
        ((shelf.children root).foldl (fun d c => (d.graft 2 shelf c).1) shelf, 2) := by
  have hcopies (n : NodeId) := graft_copies_subtree (p := 2) (n := n) built_shelf built_shelf
    textLeaves_shelf (by decide)
  have hshelf := (hcopies 1).1 (by decide) (by decide)
  have htext := (hcopies 3).2.1 "x" 3 "x" (by decide) (by decide) (by decide)
  exact ⟨hshelf, htext.2, (hcopies root).2.2 (by decide)⟩

end Document

end MarkupRules.Markup
