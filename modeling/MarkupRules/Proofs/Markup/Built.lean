/-
# Built documents

A document is built by reading a text or from the empty document by the operations that add
nodes and change them. Whatever is built that way has links that fit together. For a text this
is an invariant of the pass that reads it: the document so far is linked, and every element that
is still open is one of its nodes.

Key definitions: `Built`, `Progress.Fits`.

Key theorems: `fits_kept`, `Linked.of_read`, `Built.linked`.
-/
import MarkupRules.Proofs.Markup.Links
import MarkupRules.Proofs.Markup.Pass

namespace MarkupRules.Markup

open Document

/-! ### What is read -/

namespace Progress

/-- What the pass through the content keeps: the document so far is linked, and the open elements
are nodes of it. -/
structure Fits (p : Progress) : Prop where
  /-- The links of the document fit together. -/
  linked : p.doc.Linked
  /-- Open elements are nodes of the document. -/
  open_lt : ∀ e ∈ p.path, e.id < p.doc.size

theorem Fits.parent_lt {p : Progress} (h : p.Fits) : p.parent < p.doc.size := by
  rw [parent]
  split
  · next e path hpath => exact h.open_lt e (hpath ▸ List.mem_cons_self)
  · exact h.linked.root_lt

theorem Fits.grow {p : Progress} (h : p.Fits) {d : Document} (hd : p.doc.GrowsTo d) :
    Fits { p with doc := d } :=
  ⟨hd.linked h.linked, fun e he => Nat.lt_of_lt_of_le (h.open_lt e he) hd.size_le⟩

end Progress

theorem startElement_fits {p p' : Progress} {written : Qualified} {tag : TagContent}
    {isOpen : Bool} (h : startElement p written tag isOpen = .ok p') (hp : p.Fits) : p'.Fits := by
  obtain ⟨attributes, uri, -, -, rfl⟩ := startElement_eq_ok h
  have hold : ∀ e ∈ p.path, e.id < p.doc.size + 1 := fun e he =>
    Nat.lt_succ_of_lt (hp.open_lt e he)
  refine ⟨linked_push hp.linked hp.parent_lt _, fun e he => ?_⟩
  refine Nat.lt_of_lt_of_eq (m := p.doc.size + 1) ?_ (size_push p.doc p.parent _).symm
  cases isOpen with
  | true =>
    rcases List.mem_cons.1 he with rfl | he
    · exact Nat.lt_succ_self _
    · exact hold e he
  | false => exact hold e he

theorem endElement_fits {p p' : Progress} {written : Qualified}
    (h : endElement p written = .ok p') (hp : p.Fits) : p'.Fits := by
  obtain ⟨e, path, hpath, rfl⟩ := endElement_eq_ok h
  exact ⟨hp.linked, fun o ho => hp.open_lt o (hpath ▸ List.mem_cons_of_mem e ho)⟩

theorem fits_kept : Progress.Kept Progress.Fits where
  wait _ _ hp := ⟨hp.linked, hp.open_lt⟩
  add _ hp := hp.grow (growsTo_push hp.parent_lt _)
  addText _ hp := hp.grow (growsTo_appendText hp.parent_lt _)
  startElement h _ _ hp := startElement_fits h hp
  endElement h hp := endElement_fits h hp

/-- Reading a text gives a linked document. -/
theorem Document.Linked.of_read {text : String} {origin : Option String} {d : Document}
    (h : Document.read text origin = .ok d) : d.Linked := by
  obtain ⟨d, hd, rfl⟩ := map_eq_ok_iff.1 h
  have hlinked : d.Linked := holds_of_chars linked_empty
    (fun _ _ _ h => linked_push h h.root_lt _) (fun _ h => ⟨h, by simp [Progress.start]⟩)
    fits_kept (fun _ hp => hp.linked) hd
  exact hlinked.withOrigin origin

/-! ### What can be built -/

/-- A document that is read from a text, or built from others by the operations on documents. A
node is named only by the document it belongs to. -/
inductive Built : Document → Prop where
  /-- The empty document. -/
  | empty : Built .empty
  /-- A document read from a text. -/
  | read {text : String} {origin : Option String} {d : Document} :
    Document.read text origin = .ok d → Built d
  /-- Another locator. -/
  | withOrigin {d : Document} (origin : Option String) : Built d → Built (d.withOrigin origin)
  /-- A new element. -/
  | appendElement {d : Document} {p : NodeId} (name : Name) :
    Built d → p < d.size → Built (d.appendElement p name).1
  /-- More character data. -/
  | appendText {d : Document} {p : NodeId} (content : String) :
    Built d → p < d.size → Built (d.appendText p content).1
  /-- A new comment. -/
  | appendComment {d : Document} {p : NodeId} (content : String) :
    Built d → p < d.size → Built (d.appendComment p content).1
  /-- Another value of an attribute. -/
  | setAttribute {d : Document} (n : NodeId) (name : Name) (value : String) :
    Built d → Built (d.setAttribute n name value)
  /-- One attribute less. -/
  | removeAttribute {d : Document} (n : NodeId) (localPart : String) :
    Built d → Built (d.removeAttribute n localPart).1
  /-- One binding more. -/
  | bind {d : Document} (n : NodeId) (label : Option String) (uri : String) :
    Built d → Built (d.bind n label uri)
  /-- A copy of a node without what is below it. -/
  | copyNode {d source : Document} {p n : NodeId} :
    Built d → Built source → p < d.size → n < source.size → Built (d.copyNode p source n).1
  /-- A copy of a node with everything below it. -/
  | graft {d source : Document} {p n : NodeId} :
    Built d → Built source → p < d.size → n < source.size → Built (d.graft p source n).1

/-- The links of every document that can be built fit together. -/
theorem Built.linked {d : Document} (h : Built d) : d.Linked := by
  induction h with
  | empty => exact linked_empty
  | read h => exact Linked.of_read h
  | withOrigin origin _ ih => exact ih.withOrigin origin
  | appendElement name _ hp ih => exact linked_push ih hp _
  | appendText content _ hp ih => exact (growsTo_appendText hp content).linked ih
  | appendComment content _ hp ih => exact linked_push ih hp _
  | setAttribute n name value _ ih => exact ih.modifyElement n _
  | removeAttribute n localPart _ ih => exact ih.modifyElement n _
  | bind n label uri _ ih => exact ih.modifyElement n _
  | copyNode _ _ hp _ ih _ => exact (growsTo_copyNode hp _ _).linked ih
  | graft _ _ hp _ ih _ => exact (growsTo_graft hp _ _).linked ih

/-- A shelf with a book that has an identifier and a text, a comment, and an empty book. -/
def Document.shelf : Document :=
  let d := (Document.empty.appendElement root (.plain "shelf")).1
  let d := (d.appendElement 1 (.plain "book")).1
  let d := d.setAttribute 2 (.plain "id") "a"
  let d := (d.appendText 2 "x").1
  let d := (d.appendComment 1 "y").1
  (d.appendElement 1 (.plain "book")).1

theorem built_shelf : Built .shelf :=
  have hshelf := Built.empty.appendElement (p := root) (.plain "shelf") (by decide)
  have hbook := hshelf.appendElement (p := 1) (.plain "book") (by decide)
  have hid := hbook.setAttribute 2 (.plain "id") "a"
  have htext := hid.appendText (p := 2) "x" (by decide)
  have hcomment := htext.appendComment (p := 1) "y" (by decide)
  hcomment.appendElement (p := 1) (.plain "book") (by decide)

end MarkupRules.Markup
