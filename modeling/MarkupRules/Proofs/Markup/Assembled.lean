/-
# Assembled documents

A document that is put together from the empty one by the operations on documents is a tree of
which the table lists the nodes in the order in which they were added. Every operation either adds
one node behind the others or changes what one node is; adding keeps texts apart because character
data joins a text in front of it, and changing keeps kinds. A graft is a sequence of such steps.

Key definitions: `Element.Distinct`, `Payload.Keeps`, `Assembled`, `Document.Arranged`,
`Document.Orderly`.

Key theorems: `arranged_push`, `arranged_modifyPayload`, `arranged_graft`,
`Assembled.arranged`, `assembled_documents_are_orderly`.
-/
import MarkupRules.Proofs.Markup.Scopes
import MarkupRules.Proofs.Markup.Unlabelled

namespace MarkupRules.Markup

/-! ### Elements without repetitions -/

/-- No attribute of an element is there twice, and no label is bound twice on it. -/
structure Element.Distinct (e : Element) : Prop where
  /-- No two attributes have the same namespace and local part. -/
  attributes : (expandedNames e.attributes).Nodup
  /-- No two bindings have the same label. -/
  labels : (e.bindings.map Binding.label).Nodup

section Elements

variable {e : Element}

theorem distinct_new (name : Name) : Element.Distinct ⟨name, [], []⟩ :=
  ⟨List.nodup_nil, List.nodup_nil⟩

theorem mem_expandedNames_setIn {name : Name} {value : String} {x : Option String × String} :
    ∀ {as : List Attribute}, x ∈ expandedNames (Document.setIn name value as) →
      x ∈ expandedNames as ∨ x = (name.uri, name.localPart)
  | [], h => .inr (List.mem_singleton.1 h)
  | a :: as, h => by
    rw [Document.setIn] at h
    split at h
    · exact .inl h
    · rcases List.mem_cons.1 h with rfl | h
      · exact .inl List.mem_cons_self
      · exact (mem_expandedNames_setIn h).imp_left (List.mem_cons_of_mem _)

/-- Setting an attribute adds no second one of its name. -/
theorem nodup_setIn {name : Name} {value : String} : ∀ {as : List Attribute},
    (expandedNames as).Nodup → (expandedNames (Document.setIn name value as)).Nodup
  | [], _ => List.nodup_singleton _
  | a :: as, h => by
    rw [Document.setIn]
    split
    · exact h
    · next hname =>
      obtain ⟨ha, has⟩ := List.nodup_cons.1 h
      refine List.nodup_cons.2 ⟨fun hmem => ?_, nodup_setIn has⟩
      rcases mem_expandedNames_setIn hmem with hmem | hsame
      · exact ha hmem
      · obtain ⟨huri, hlocal⟩ := Prod.mk.inj hsame
        exact hname (by simp [Name.same, huri, hlocal])

theorem Element.Distinct.setAttribute (h : e.Distinct) (name : Name) (value : String) :
    Element.Distinct { e with attributes := Document.setIn name value e.attributes } :=
  ⟨nodup_setIn h.attributes, h.labels⟩

theorem Element.Distinct.withoutAttribute (h : e.Distinct) (localPart : String) :
    (e.withoutAttribute localPart).Distinct :=
  ⟨h.attributes.sublist (List.filter_sublist.map _), h.labels⟩

/-- A label that is bound is not bound again. -/
theorem Element.Distinct.bind (h : e.Distinct) (label : Option String) (uri : String) :
    Element.Distinct (if e.bindings.any fun b => b.label == label then e
      else { e with bindings := e.bindings ++ [⟨label, uri⟩] }) := by
  split
  · exact h
  · next hfree =>
    refine ⟨h.attributes, ?_⟩
    rw [List.map_append, List.map_singleton, List.nodup_append]
    refine ⟨h.labels, List.nodup_singleton _, fun l hl m hm heq => hfree ?_⟩
    obtain ⟨b, hb, hlabel⟩ := List.mem_map.1 hl
    refine List.any_eq_true.2 ⟨b, hb, beq_iff_eq.2 ?_⟩
    rw [hlabel, heq, List.mem_singleton.1 hm]

/-- A node that takes the place of another one is of its kind, and an element without repetitions
if that is one. -/
inductive Payload.Keeps : Payload → Payload → Prop where
  /-- The same node. -/
  | same (x : Payload) : Keeps x x
  /-- Other character data. -/
  | text (s t : String) : Keeps (.text s) (.text t)
  /-- Another element. -/
  | element {e f : Element} (h : e.Distinct → f.Distinct) : Keeps (.element e) (.element f)

theorem Payload.Keeps.isText_iff {x y : Payload} (h : x.Keeps y) :
    (∃ s, y = .text s) ↔ ∃ s, x = .text s := by
  cases h <;> simp

theorem Payload.keeps_extend (more : String) (x : Payload) : x.Keeps (x.extend more) := by
  cases x with
  | text s => exact .text s (s ++ more)
  | _ => exact .same _

end Elements

/-! ### Documents that are put together -/

/-- A document put together from the empty one by the operations on documents, of which the copies
are taken from such documents. Nodes are named by the document they belong to. -/
inductive Assembled : Document → Prop where
  /-- The empty document. -/
  | empty : Assembled .empty
  /-- A new element. -/
  | appendElement {d : Document} {p : NodeId} (name : Name) :
    Assembled d → p < d.size → Assembled (d.appendElement p name).1
  /-- More character data. -/
  | appendText {d : Document} {p : NodeId} (content : String) :
    Assembled d → p < d.size → Assembled (d.appendText p content).1
  /-- A new comment. -/
  | appendComment {d : Document} {p : NodeId} (content : String) :
    Assembled d → p < d.size → Assembled (d.appendComment p content).1
  /-- Another value of an attribute. -/
  | setAttribute {d : Document} (n : NodeId) (name : Name) (value : String) :
    Assembled d → Assembled (d.setAttribute n name value)
  /-- One attribute less. -/
  | removeAttribute {d : Document} (n : NodeId) (localPart : String) :
    Assembled d → Assembled (d.removeAttribute n localPart).1
  /-- One binding more. -/
  | bind {d : Document} (n : NodeId) (label : Option String) (uri : String) :
    Assembled d → Assembled (d.bind n label uri)
  /-- A copy of a node without what is below it. -/
  | copyNode {d source : Document} {p n : NodeId} :
    Assembled d → Assembled source → p < d.size → n < source.size →
      Assembled (d.copyNode p source n).1
  /-- A copy of a node with everything below it. -/
  | graft {d source : Document} {p n : NodeId} :
    Assembled d → Assembled source → p < d.size → n < source.size →
      Assembled (d.graft p source n).1

theorem Assembled.built {d : Document} (h : Assembled d) : Built d := by
  induction h with
  | empty => exact .empty
  | appendElement name _ hp ih => exact .appendElement name ih hp
  | appendText content _ hp ih => exact .appendText content ih hp
  | appendComment content _ hp ih => exact .appendComment content ih hp
  | setAttribute n name value _ ih => exact .setAttribute n name value ih
  | removeAttribute n localPart _ ih => exact .removeAttribute n localPart ih
  | bind n label uri _ ih => exact .bind n label uri ih
  | copyNode _ _ hp hn ih ih' => exact .copyNode ih ih' hp hn
  | graft _ _ hp hn ih ih' => exact .graft ih ih' hp hn

/-! ### What the operations keep -/

namespace Document

/-- What every operation on documents keeps. -/
structure Arranged (d : Document) : Prop where
  /-- The links fit together. -/
  linked : d.Linked
  /-- The first node is the document node. -/
  top : d.payload root = .document
  /-- No character data stands next to character data. -/
  apart : ∀ n, (d.children n).IsChain fun a b => ¬ (d.isText a ∧ d.isText b)
  /-- Elements are without repetitions. -/
  distinct : ∀ n e, d.payload n = .element e → e.Distinct

variable {d : Document}

theorem arranged_empty : empty.Arranged where
  linked := linked_empty
  top := rfl
  apart n := by
    rcases n with _ | n
    · exact .nil
    · rw [children_eq_nil (Nat.le_add_left 1 n)]
      exact .nil
  distinct n e h := by
    rcases n with _ | n <;> cases h

/-- A node is added that is no element with repetitions, and no character data behind character
data. -/
theorem arranged_push (h : d.Arranged) {p : NodeId} (hp : p < d.size) {x : Payload}
    (hx : ∀ e, x = .element e → e.Distinct)
    (hlast : ∀ s, x = .text s → ∀ n ∈ d.lastChild? p, d.isText n = false) :
    (d.push p x).1.Arranged where
  linked := linked_push h.linked hp x
  top := by rw [payload_push, if_neg (Nat.ne_of_lt h.linked.root_lt), h.top]
  apart := apart_push h.linked hp h.apart hlast
  distinct n e he := by
    rw [payload_push] at he
    split at he
    · exact hx e he
    · exact h.distinct n e he

/-- A node is changed, but not its kind. -/
theorem arranged_modifyPayload (h : d.Arranged) (n : NodeId) {f : Payload → Payload}
    (hf : ∀ x : Payload, x.Keeps (f x)) : (d.modifyPayload n f).Arranged := by
  have hpayload : ∀ m : Nat, m < d.size →
      (d.payload m).Keeps ((d.modifyPayload n f).payload m) := by
    intro m hm
    rw [payload_modifyPayload n m f hm]
    split
    · exact hf _
    · exact .same _
  refine ⟨h.linked.modifyPayload n f, ?_,
    apart_modifyPayload h.linked h.apart n fun x => (hf x).isText_iff, fun m e he => ?_⟩
  · have hkeeps := hpayload root h.linked.root_lt
    rw [h.top] at hkeeps
    generalize (d.modifyPayload n f).payload root = y at hkeeps
    cases hkeeps
    rfl
  · have hm : m < d.size := by
      refine Nat.lt_of_not_le fun hle => ?_
      rw [← size_modifyPayload d n f] at hle
      rw [payload, getElem?_eq_none hle] at he
      cases he
    have hkeeps := hpayload m hm
    rw [he] at hkeeps
    generalize hx : d.payload m = x at hkeeps
    cases hkeeps with
    | same => exact h.distinct m e hx
    | @element e' _ hdistinct => exact hdistinct (h.distinct m e' hx)

theorem arranged_modifyElement (h : d.Arranged) (n : NodeId) {f : Element → Element}
    (hf : ∀ e : Element, e.Distinct → (f e).Distinct) : (d.modifyElement n f).Arranged := by
  refine arranged_modifyPayload h n fun x => ?_
  cases x with
  | element e => exact .element (hf e)
  | _ => exact .same _

/-- Character data joins a text that ends the children so far. -/
theorem arranged_appendText (h : d.Arranged) {p : NodeId} (hp : p < d.size) (s : String) :
    (d.appendText p s).1.Arranged :=
  appendText_keeps (fun last _ _ => arranged_modifyPayload h last (Payload.keeps_extend s))
    fun hlast => arranged_push h hp nofun fun _ _ => hlast

theorem arranged_copyNode (h : d.Arranged) {source : Document} (hsource : source.Arranged)
    {p : NodeId} (hp : p < d.size) (n : NodeId) : (d.copyNode p source n).1.Arranged := by
  rw [copyNode]
  split
  · exact h
  · exact arranged_appendText h hp _
  · next htext => exact arranged_push h hp (hsource.distinct n) fun s hs => absurd hs (htext s)

/-- A graft copies node after node. -/
theorem arranged_graft (h : d.Arranged) {source : Document} (hsource : source.Arranged)
    {p : NodeId} (hp : p < d.size) (n : NodeId) : (d.graft p source n).1.Arranged :=
  graft_keeps
    (fun h hp _ hplain => arranged_push h hp (hsource.distinct _) fun s hs => absurd hs (hplain s))
    (fun s h hp => arranged_appendText h hp s) h hp n

end Document

open Document

/-- Whatever is put together is arranged. -/
theorem Assembled.arranged {d : Document} (h : Assembled d) : d.Arranged := by
  induction h with
  | empty => exact arranged_empty
  | appendElement name _ hp ih =>
    refine arranged_push ih hp (fun e he => ?_) nofun
    cases he
    exact distinct_new name
  | appendText content _ hp ih => exact arranged_appendText ih hp content
  | appendComment content _ hp ih => exact arranged_push ih hp nofun nofun
  | setAttribute n name value _ ih =>
    exact arranged_modifyElement ih n fun e he => he.setAttribute name value
  | removeAttribute n localPart _ ih =>
    exact arranged_modifyElement ih n fun e he => he.withoutAttribute localPart
  | bind n label uri _ ih => exact arranged_modifyElement ih n fun e he => he.bind label uri
  | copyNode _ _ hp _ ih ih' => exact arranged_copyNode ih ih' hp _
  | graft _ _ hp _ ih ih' => exact arranged_graft ih ih' hp _

/-! ### Tables of nodes in order -/

namespace Document

/-- The children of all nodes, node by node. -/
def allChildren (d : Document) : List NodeId :=
  (List.range d.size).flatMap d.children

/-- The table of a document lists the nodes of a tree in the order in which they were added. -/
structure Orderly (d : Document) : Prop where
  /-- The first node is the only document node. -/
  document : ∀ n < d.size, d.payload n = .document ↔ n = root
  /-- The first node is the only one without a node above it. -/
  top : ∀ n < d.size, d.parent? n = none ↔ n = root
  /-- The node above another one was there before. -/
  parent_lt : ∀ n p, d.parent? n = some p → p < n
  /-- The children of a node are those that it is above of. -/
  mem_children : ∀ p n, n ∈ d.children p ↔ d.parent? n = some p
  /-- Every node but the first is once among all children, and nothing else is there. -/
  count_children : ∀ n, d.allChildren.count n = if n < d.size ∧ n ≠ root then 1 else 0
  /-- Children come in the order in which they were added. -/
  ascending : ∀ p, (d.children p).Pairwise (· < ·)
  /-- No character data stands next to character data. -/
  apart : ∀ p, (d.children p).IsChain fun a b => ¬ (d.isText a ∧ d.isText b)
  /-- No attribute of an element is there twice, and no label is bound twice on it. -/
  distinct : ∀ n e, d.element? n = some e → e.Distinct

variable {d : Document}

theorem Linked.parent?_eq_none_iff (h : d.Linked) {n : NodeId} (hn : n < d.size) :
    d.parent? n = none ↔ n = root := by
  constructor
  · intro hnone
    by_contra hne
    obtain ⟨p, -, hp⟩ := h.parent_lt n hn hne
    cases hnone.symm.trans hp
  · rintro rfl
    exact h.parent_root

theorem Linked.mem_allChildren (h : d.Linked) {n : NodeId} :
    n ∈ d.allChildren ↔ n < d.size ∧ n ≠ root := by
  rw [allChildren, List.mem_flatMap]
  constructor
  · rintro ⟨p, -, hn⟩
    have hover : d.Over p n := h.mem_children_iff.1 hn
    exact ⟨(h.mem_children_lt hn).2, h.ne_root_of_over hover⟩
  · rintro ⟨hn, hne⟩
    obtain ⟨p, hp, hparent⟩ := h.parent_lt n hn hne
    exact ⟨p, List.mem_range.2 (Nat.lt_trans hp hn), h.mem_children_iff.2 hparent⟩

/-- No node is a child of two nodes, or twice of one. -/
theorem Linked.nodup_allChildren (h : d.Linked) : d.allChildren.Nodup := by
  rw [allChildren, List.nodup_flatMap]
  refine ⟨fun p _ => (h.ascending p).imp Nat.ne_of_lt, List.nodup_range.imp fun hne n hn hn' => ?_⟩
  exact hne (over_unique (h.mem_children_iff.1 hn) (h.mem_children_iff.1 hn'))

theorem Linked.count_allChildren (h : d.Linked) (n : NodeId) :
    d.allChildren.count n = if n < d.size ∧ n ≠ root then 1 else 0 := by
  split
  · next hn => exact List.count_eq_one_of_mem h.nodup_allChildren (h.mem_allChildren.2 hn)
  · next hn => exact List.count_eq_zero.2 (mt h.mem_allChildren.1 hn)

/-- The walk from the first node comes to every other node once. -/
theorem Linked.mem_descendants_root (h : d.Linked) {n : NodeId} :
    n ∈ d.descendants root ↔ n < d.size ∧ n ≠ root := by
  rw [h.mem_descendants]
  constructor
  · exact fun hn => ⟨lt_size_of_above hn, Nat.ne_of_gt (h.lt_of_above hn)⟩
  · exact fun ⟨hn, hne⟩ => (atOrOver_iff.1 (h.atOrOver_root hn)).resolve_left hne

end Document

/-- In a document that is put together, the first node is the document node and the only one without
a node above it, every other node is a child once, of a node in front of it, children come in order
with texts apart, and elements are without repetitions. So the walk from the first node comes to
every other node once. -/
theorem assembled_documents_are_orderly {d : Document} (h : Assembled d) :
    d.Orderly ∧ (d.descendants root).Nodup ∧
      ∀ n, n ∈ d.descendants root ↔ n < d.size ∧ n ≠ root := by
  have harranged := h.arranged
  have hlinked := harranged.linked
  have hdocument : ∀ n < d.size, d.payload n = .document ↔ n = root := by
    intro n hn
    constructor
    · exact fun hpayload => by_contra fun hne => h.built.rooted n hn hne hpayload
    · rintro rfl
      exact harranged.top
  have horderly : d.Orderly :=
    { document := hdocument
      top := fun n hn => hlinked.parent?_eq_none_iff hn
      parent_lt := fun n p => hlinked.lt_of_parent?
      mem_children := hlinked.mem_children
      count_children := hlinked.count_allChildren
      ascending := hlinked.ascending
      apart := harranged.apart
      distinct := fun n e he => harranged.distinct n e (element?_eq_some_iff.1 he) }
  have hnodup : (d.descendants root).Nodup := by
    have hlisting := hlinked.nodup_listing root
    rw [hlinked.listing_eq_cons] at hlisting
    exact (List.nodup_cons.1 hlisting).2
  exact ⟨horderly, hnodup, fun n => hlinked.mem_descendants_root⟩

theorem assembled_shelf : Assembled .shelf :=
  have hshelf := Assembled.empty.appendElement (p := root) (.plain "shelf") (by decide)
  have hbook := hshelf.appendElement (p := 1) (.plain "book") (by decide)
  have hid := hbook.setAttribute 2 (.plain "id") "a"
  have htext := hid.appendText (p := 2) "x" (by decide)
  have hcomment := htext.appendComment (p := 1) "y" (by decide)
  hcomment.appendElement (p := 1) (.plain "book") (by decide)

/-- A crate with a label that is to be bound twice, an attribute that is set twice, a text with a
text of the shelf behind it, a copy of the shelf without its books, and the shelf. -/
def Document.crate : Document :=
  let d := (Document.empty.appendElement root (.plain "crate")).1
  let d := (d.bind 1 (some "c") "urn:c").bind 1 (some "c") "urn:d"
  let d := (d.setAttribute 1 (.plain "id") "a").setAttribute 1 (.plain "id") "b"
  let d := (d.removeAttribute 1 "name").1
  let d := (d.appendText 1 "x").1
  let d := (d.graft 1 .shelf 3).1
  let d := (d.copyNode 1 .shelf 1).1
  (d.graft 1 .shelf root).1

theorem assembled_documents_are_orderly_of_crate :
    Assembled .crate ∧ Document.crate.Orderly ∧
      Document.crate.descendants root = [1, 2, 3, 4, 5, 6, 7, 8] ∧
      (Document.crate.descendants root).Nodup ∧
      ∀ n, n ∈ Document.crate.descendants root ↔ n < Document.crate.size ∧ n ≠ root := by
  have hcrate := Assembled.empty.appendElement (p := root) (.plain "crate") (by decide)
  have hbound := (hcrate.bind 1 (some "c") "urn:c").bind 1 (some "c") "urn:d"
  have hset := (hbound.setAttribute 1 (.plain "id") "a").setAttribute 1 (.plain "id") "b"
  have htext := (hset.removeAttribute 1 "name").appendText (p := 1) "x" (by decide)
  have hjoined := htext.graft (p := 1) (n := 3) assembled_shelf (by decide) (by decide)
  have hcopied := hjoined.copyNode (p := 1) (n := 1) assembled_shelf (by decide) (by decide)
  have hfull : Assembled .crate :=
    hcopied.graft (p := 1) (n := root) assembled_shelf (by decide) (by decide)
  obtain ⟨horderly, hnodup, hmem⟩ := assembled_documents_are_orderly hfull
  exact ⟨hfull, horderly, by decide, hnodup, hmem⟩

end MarkupRules.Markup
