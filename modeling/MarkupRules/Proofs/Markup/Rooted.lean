/-
# One document node

The table of a document starts with a document node, and no operation adds another one: reading
adds elements, character data, comments and processing instructions, a change of a node keeps its
kind, and of a document node only what is below it is copied.

Key definition: `Document.Rooted`.

Key theorems: `rooted_graft`, `rooted_of_read`, `Built.rooted`.
-/
import MarkupRules.Proofs.Markup.Built
import MarkupRules.Proofs.Markup.Planted

namespace MarkupRules.Markup

namespace Document

/-- No node but the first one is a document node. -/
def Rooted (d : Document) : Prop :=
  ∀ n : Nat, n < d.size → n ≠ root → d.payload n ≠ .document

variable {d : Document}

theorem rooted_push (h : d.Rooted) (p : NodeId) {x : Payload} (hx : x ≠ .document) :
    (d.push p x).1.Rooted := by
  intro n hn hne
  rw [size_push] at hn
  rw [payload_push]
  split
  · exact hx
  · next hnew => exact h n (Nat.lt_of_le_of_ne (Nat.le_of_lt_succ hn) hnew) hne

/-- A change of a node that keeps kinds apart keeps them apart in the document. -/
theorem rooted_modifyPayload (h : d.Rooted) (n : NodeId) {f : Payload → Payload}
    (hf : ∀ x, x ≠ .document → f x ≠ .document) : (d.modifyPayload n f).Rooted := by
  intro m hm hne
  rw [size_modifyPayload] at hm
  rw [payload_modifyPayload n m f hm]
  split
  · exact hf _ (h m hm hne)
  · exact h m hm hne

theorem rooted_modifyElement (h : d.Rooted) (n : NodeId) (f : Element → Element) :
    (d.modifyElement n f).Rooted := by
  refine rooted_modifyPayload h n fun x hx => ?_
  cases x <;> simp_all

theorem rooted_appendText (h : d.Rooted) (p : NodeId) (t : String) :
    (d.appendText p t).1.Rooted := by
  refine appendText_keeps (P := Rooted) (fun last _ _ => ?_) fun _ => rooted_push h p (by simp)
  refine rooted_modifyPayload h last fun x hx => ?_
  cases x <;> simp_all [Payload.extend]

theorem rooted_copyNode (h : d.Rooted) (p : NodeId) (source : Document) (n : NodeId) :
    (d.copyNode p source n).1.Rooted := by
  rw [copyNode]
  split
  · exact h
  · exact rooted_appendText h p _
  · next hdocument _ => exact rooted_push h p hdocument

theorem rooted_graft (h : d.Rooted) {p : NodeId} (hp : p < d.size) (source : Document)
    (n : NodeId) : (d.graft p source n).1.Rooted :=
  graft_keeps (P := Rooted) (fun h _ hdocument _ => rooted_push h _ hdocument)
    (fun s h _ => rooted_appendText h _ s) h hp n

theorem rooted_empty : empty.Rooted :=
  fun _ hn hne => absurd (Nat.lt_one_iff.1 hn) hne

end Document

open Document

theorem Payload.IsRemark.ne_document {x : Payload} (h : x.IsRemark) : x ≠ .document := by
  rintro rfl
  exact h

theorem startElement_rooted {p p' : Progress} {written : Qualified} {tag : TagContent}
    {isOpen : Bool} (h : startElement p written tag isOpen = .ok p') (hp : p.doc.Rooted) :
    p'.doc.Rooted := by
  obtain ⟨attributes, uri, -, -, rfl⟩ := startElement_eq_ok h
  exact rooted_push hp _ (by simp)

theorem endElement_doc {p p' : Progress} {written : Qualified}
    (h : endElement p written = .ok p') : p'.doc = p.doc := by
  obtain ⟨o, path, -, rfl⟩ := endElement_eq_ok h
  rfl

theorem rooted_kept : Progress.Kept fun p => p.doc.Rooted where
  wait _ _ hp := hp
  add hx hp := rooted_push hp _ hx.ne_document
  addText _ hp := rooted_appendText hp _ _
  startElement h _ _ hp := startElement_rooted h hp
  endElement h hp := endElement_doc h ▸ hp

/-- Reading a text gives a document with one document node. -/
theorem Document.rooted_of_read {text : String} {origin : Option String} {d : Document}
    (h : Document.read text origin = .ok d) : d.Rooted := by
  obtain ⟨d, hd, rfl⟩ := map_eq_ok_iff.1 h
  have hrooted : d.Rooted := holds_of_chars rooted_empty
    (fun _ _ hx h => rooted_push h _ hx.ne_document) (fun _ h => h) rooted_kept (fun _ hp => hp) hd
  exact hrooted

/-- Every document that can be built has one document node. -/
theorem Built.rooted {d : Document} (h : Built d) : d.Rooted := by
  induction h with
  | empty => exact rooted_empty
  | read h => exact rooted_of_read h
  | withOrigin origin _ ih => exact ih
  | appendElement name _ _ ih => exact rooted_push ih _ (by simp)
  | appendText content _ _ ih => exact rooted_appendText ih _ _
  | appendComment content _ _ ih => exact rooted_push ih _ (by simp)
  | setAttribute n name value _ ih => exact rooted_modifyElement ih n _
  | removeAttribute n localPart _ ih => exact rooted_modifyElement ih n _
  | bind n label uri _ ih => exact rooted_modifyElement ih n _
  | copyNode _ _ _ _ ih _ => exact rooted_copyNode ih _ _ _
  | graft _ _ hp _ ih _ => exact rooted_graft ih hp _ _

end MarkupRules.Markup
