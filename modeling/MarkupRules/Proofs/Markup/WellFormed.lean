/-
# What reading guarantees

Every document that is read is well formed: its nodes stand as those of a text do, comments and
processing instructions do not hold their own end, character data holds characters of markup, and
the names, attributes and bindings of elements are proper ones. This is an invariant of the pass
through the text. The bindings in force inside the elements that are open are part of it, because
the labels of later names are taken from them.

Key definitions: `Payload.Proper`, `Document.WellFormed`, `Progress.Sound`.

Key theorems: `resolveAttributes_proper`, `startElement_sound`, `Document.WellFormed.of_read`.
-/
import Mathlib.Data.List.Chain
import MarkupRules.Proofs.Markup.Tags

namespace MarkupRules.Markup

open Document (root growsTo_push size_push payload_push element?)

/-! ### Names in a start tag -/

section Names

variable {scope own around : List Binding}

theorem isPart_xmlLabel : IsPart xmlLabel := by decide

theorem scopeWithin_proper (hown : ∀ b ∈ own, b.Proper) (haround : ∀ b ∈ around, b.Proper) :
    ∀ b ∈ scopeWithin own around, b.Proper := by
  unfold scopeWithin
  induction around generalizing own with
  | nil => exact hown
  | cons b around ih =>
    obtain ⟨hb, haround⟩ := List.forall_mem_cons.1 haround
    rw [List.foldl_cons]
    refine ih ?_ haround
    split
    · exact hown
    · exact List.forall_mem_append.2 ⟨hown, by simpa using hb⟩

variable (hscope : ∀ b ∈ scope, b.Proper)

include hscope

theorem labelFor_isPart {uri : Option String} : ∀ l ∈ labelFor scope uri, IsPart l := by
  intro l hl
  obtain ⟨u, -, hl⟩ := Option.bind_eq_some_iff.1 hl
  split at hl
  · cases hl
    exact isPart_xmlLabel
  · obtain ⟨b, hb, hl⟩ := Option.bind_eq_some_iff.1 hl
    exact (hscope b (List.mem_of_find?_eq_some hb)).spelled l hl

/-- The label of markup itself is kept for the namespace of markup itself only. -/
theorem labelFor_ne_xmlLabel {uri : Option String} (huri : uri ≠ some xmlUri) :
    labelFor scope uri ≠ some xmlLabel := by
  intro h
  obtain ⟨u, rfl, hl⟩ := Option.bind_eq_some_iff.1 h
  split at hl
  · next hu => exact huri (congrArg some hu)
  · obtain ⟨b, hb, hl⟩ := Option.bind_eq_some_iff.1 hl
    exact (hscope b (List.mem_of_find?_eq_some hb)).label hl

theorem uriOf_ne_xmlUri {label uri : Option String} (h : uriOf scope label = .ok uri) :
    uri ≠ some xmlUri := by
  unfold uriOf at h
  split at h
  · next b hb =>
    cases h
    exact fun heq => (hscope b (List.mem_of_find?_eq_some hb)).uri.1 (Option.some.inj heq)
  · split at h
    · cases h
    · cases h
      simp

theorem nameIn_spelled {uri : Option String} {localPart : String} (h : IsPart localPart) :
    Spelled (nameIn scope uri localPart).label (nameIn scope uri localPart).localPart :=
  ⟨h, labelFor_isPart hscope⟩

/-- The attributes of a start tag get proper names of which no two are one. -/
theorem resolveAttributes_proper : ∀ {tag : List (Qualified × String)}
    {done attributes : List Attribute},
    resolveAttributes scope done tag = .ok attributes → (∀ a ∈ tag, a.1.IsPlain) →
      (∀ a ∈ done, a.Proper) → (expandedNames done).Nodup →
        (∀ a ∈ attributes, a.Proper) ∧ (expandedNames attributes).Nodup
  | [], done, attributes, h, _, hdone, hnodup => by
    cases h
    exact ⟨hdone, hnodup⟩
  | (q, value) :: tag, done, attributes, h, htag, hdone, hnodup => by
    obtain ⟨hq, htag⟩ := List.forall_mem_cons.1 htag
    rw [resolveAttributes_cons] at h
    obtain ⟨uri, -, h⟩ := bind_eq_ok_iff.1 h
    split at h
    · cases h
    · next hnew =>
      have hproper : Attribute.Proper ⟨nameIn scope uri q.localPart, value⟩ :=
        ⟨nameIn_spelled hscope hq.spelled.localPart, hq.localPart⟩
      have hfresh : (uri, q.localPart) ∉ expandedNames done := by
        intro hmem
        obtain ⟨a, ha, heq⟩ := List.mem_map.1 hmem
        refine hnew (List.any_eq_true.2 ⟨a, ha, ?_⟩)
        obtain ⟨huri, hlocal⟩ := Prod.mk.inj heq
        simp [Name.same, nameIn, huri, hlocal]
      have hmore : (expandedNames (done ++ [⟨nameIn scope uri q.localPart, value⟩])).Nodup := by
        rw [expandedNames, List.map_append]
        refine List.nodup_append.2 ⟨hnodup, List.nodup_singleton _, fun x hx y hy heq => ?_⟩
        rw [List.map_singleton, List.mem_singleton] at hy
        exact hfresh (hy ▸ heq ▸ hx)
      exact resolveAttributes_proper h htag
        (List.forall_mem_append.2 ⟨hdone, by simpa using hproper⟩) hmore

end Names

/-! ### Documents -/

/-- What a node of a text is. -/
def Payload.Proper : Payload → Prop
  | .document => False
  | .element e => e.Proper
  | .text s => ∀ c ∈ s.toList, isMarkupChar c
  | .comment s => IsRemarkText s
  | .instruction target content => IsTarget target ∧ IsInstructionText content

theorem Payload.IsRemark.proper {x : Payload} (h : x.IsRemark) : x.Proper := by
  cases x with
  | comment s => exact h
  | instruction target content => exact h
  | _ => exact h.elim

namespace Document

/-- A document as it is read. -/
structure WellFormed (d : Document) : Prop where
  /-- The links of the document fit together. -/
  linked : d.Linked
  /-- The nodes stand as those of a text do. -/
  shaped : d.Shaped
  /-- What the nodes are. -/
  nodes : ∀ n : Nat, n < d.size → n ≠ root → (d.payload n).Proper

/-- What has something below it. -/
def IsBranch (d : Document) (n : NodeId) : Prop :=
  n = root ∨ (d.element? n).isSome

variable {d : Document}

theorem wellFormed_empty : empty.WellFormed where
  linked := linked_empty
  shaped :=
    { top := rfl
      branch := fun n hn => by
        rcases n with _ | n
        · exact .inl rfl
        · exact absurd (children_eq_nil (Nat.le_add_left 1 n)) hn
      apart := fun n => by
        rcases n with _ | n
        · exact .nil
        · rw [children_eq_nil (Nat.le_add_left 1 n)]
          exact .nil }
  nodes n hn hne := absurd (Nat.lt_one_iff.1 hn) hne

/-- A node other than character data, or character data behind other nodes, is added below the
document node or an element. -/
theorem WellFormed.push (h : d.WellFormed) {p : NodeId} (hp : p < d.size) (hbranch : d.IsBranch p)
    {x : Payload} (hx : x.Proper)
    (hlast : ∀ s, x = .text s → ∀ n ∈ d.lastChild? p, d.isText n = false) :
    (d.push p x).1.WellFormed where
  linked := linked_push h.linked hp x
  shaped :=
    { top := by
        rw [payload_push, if_neg (Nat.ne_of_lt h.linked.root_lt), h.shaped.top]
      branch := by
        intro n hn
        have hlt : n ≠ d.size → (d.push p x).1.element? n = d.element? n := fun hne => by
          rw [element?, payload_push, if_neg hne, element?]
        by_cases hnp : n = p
        · subst hnp
          exact hbranch.imp_right fun hsome => (hlt (Nat.ne_of_lt hp)).symm ▸ hsome
        · rw [children_push hp, if_neg hnp] at hn
          have hne : n ≠ d.size := fun heq => hn (children_eq_nil (Nat.le_of_eq heq.symm))
          exact (h.shaped.branch n hn).imp_right fun hsome => (hlt hne).symm ▸ hsome
      apart := apart_push h.linked hp h.shaped.apart hlast }
  nodes n hn hne := by
    rw [payload_push]
    split
    · exact hx
    · next hnew =>
      rw [size_push] at hn
      exact h.nodes n (Nat.lt_of_le_of_ne (Nat.le_of_lt_succ hn) hnew) hne

/-- Character data that becomes longer stays where it is. -/
theorem WellFormed.extend (h : d.WellFormed) {n : NodeId} (hn : d.isText n) {more : String}
    (hmore : ∀ c ∈ more.toList, isMarkupChar c) :
    (d.modifyPayload n (Payload.extend more)).WellFormed := by
  obtain ⟨t, ht⟩ := isText_iff.1 hn
  have hpayload : ∀ m : Nat, m < d.size → (d.modifyPayload n (Payload.extend more)).payload m =
      if n = m then .text (t ++ more) else d.payload m := by
    intro m hm
    rw [payload_modifyPayload n m _ hm]
    by_cases heq : n = m
    · subst heq
      rw [if_pos rfl, if_pos rfl, ht, Payload.extend]
    · rw [if_neg heq, if_neg heq]
  have hroot : n ≠ root := fun heq => by
    rw [heq, h.shaped.top] at ht
    cases ht
  refine ⟨h.linked.modifyPayload _ _,
    ⟨?_, fun m hm => ?_, apart_extend h.linked h.shaped.apart n more⟩, fun m hm hne => ?_⟩
  · rw [hpayload root h.linked.root_lt, if_neg hroot, h.shaped.top]
  · rw [children_modifyPayload] at hm
    refine (h.shaped.branch m hm).imp_right fun hsome => ?_
    have hlt : m < d.size := Nat.lt_of_not_le fun hle => hm (children_eq_nil hle)
    obtain ⟨e, he⟩ := Option.isSome_iff_exists.1 hsome
    rw [element?_eq_some_iff] at he
    have hnm : n ≠ m := fun heq => by
      rw [heq, he] at ht
      cases ht
    rw [element?, hpayload m hlt, if_neg hnm, he]
    rfl
  · rw [size_modifyPayload] at hm
    rw [hpayload m hm]
    split
    · next heq =>
      subst heq
      have hold := h.nodes n hm hne
      rw [ht] at hold
      intro c hc
      rw [String.toList_append, List.mem_append] at hc
      exact hc.elim (hold c) (hmore c)
    · exact h.nodes m hm hne

theorem WellFormed.appendText (h : d.WellFormed) {p : NodeId} (hp : p < d.size)
    (hbranch : d.IsBranch p) {s : String} (hs : ∀ c ∈ s.toList, isMarkupChar c) :
    (d.appendText p s).1.WellFormed :=
  appendText_keeps (fun _ _ htext => h.extend htext hs)
    fun hlast => h.push hp hbranch hs fun _ _ => hlast

/-- What is a branch stays one. -/
theorem IsBranch.push {n : NodeId} (h : d.IsBranch n) (hn : n < d.size) (p : NodeId)
    (x : Payload) : (d.push p x).1.IsBranch n := by
  refine h.imp_right fun hsome => ?_
  rwa [element?, payload_push, if_neg (Nat.ne_of_lt hn)]

theorem IsBranch.appendText {n : NodeId} (h : d.IsBranch n) (hn : n < d.size) (p : NodeId)
    (s : String) : (d.appendText p s).1.IsBranch n := by
  refine appendText_keeps (P := (IsBranch · n)) (fun last _ _ => ?_) fun _ => h.push hn p _
  refine h.imp_right fun hsome => ?_
  obtain ⟨e, he⟩ := Option.isSome_iff_exists.1 hsome
  rw [element?_eq_some_iff] at he
  have hsame : (if last = n then Payload.extend s (Payload.element e) else Payload.element e) =
      Payload.element e :=
    ite_self _
  rw [element?, payload_modifyPayload _ _ _ hn, he, hsame]
  rfl

end Document

/-! ### The pass through a text -/

namespace Progress

open Document

/-- What the pass keeps: a well-formed document in which the open elements are elements, with
proper bindings in force inside them. -/
structure Sound (p : Progress) : Prop where
  /-- The document so far. -/
  doc : p.doc.WellFormed
  /-- The open elements. -/
  opened : ∀ o ∈ p.path, o.id < p.doc.size ∧ p.doc.IsBranch o.id ∧ ∀ b ∈ o.scope, b.Proper

theorem Sound.parent_lt {p : Progress} (h : p.Sound) :
    p.parent < p.doc.size ∧ p.doc.IsBranch p.parent := by
  rw [parent]
  split
  · next o path hpath =>
    obtain ⟨hlt, hbranch, -⟩ := h.opened o (hpath ▸ List.mem_cons_self)
    exact ⟨hlt, hbranch⟩
  · exact ⟨h.doc.linked.root_lt, .inl rfl⟩

theorem Sound.scope_proper {p : Progress} (h : p.Sound) : ∀ b ∈ p.scope, b.Proper := by
  rw [scope]
  split
  · next o path hpath => exact (h.opened o (hpath ▸ List.mem_cons_self)).2.2
  · simp

theorem Sound.add {p : Progress} (h : p.Sound) {x : Payload} (hx : x.IsRemark) :
    (p.add x).Sound where
  doc := h.doc.push h.parent_lt.1 h.parent_lt.2 hx.proper fun s hs => by
    rw [hs] at hx
    exact hx.elim
  opened o ho := by
    obtain ⟨hlt, hbranch, hscope⟩ := h.opened o ho
    refine ⟨?_, hbranch.push hlt _ _, hscope⟩
    rw [Progress.add, size_push]
    exact Nat.lt_succ_of_lt hlt

theorem Sound.addText {p : Progress} (h : p.Sound) {content : List Char}
    (hcontent : ∀ c ∈ content, isMarkupChar c) : (p.addText content).Sound where
  doc := h.doc.appendText h.parent_lt.1 h.parent_lt.2 (by simpa using hcontent)
  opened o ho := by
    obtain ⟨hlt, hbranch, hscope⟩ := h.opened o ho
    exact ⟨Nat.lt_of_lt_of_le hlt (growsTo_appendText h.parent_lt.1 _).size_le,
      hbranch.appendText hlt _ _, hscope⟩

end Progress

/-- An element that is added is a proper one. -/
theorem startElement_sound {p p' : Progress} {written : Qualified} {tag : TagContent}
    {isOpen : Bool} (h : startElement p written tag isOpen = .ok p')
    (hwritten : Spelled written.label written.localPart) (htag : tag.Proper) (hp : p.Sound) :
    p'.Sound := by
  obtain ⟨attributes, uri, hattributes, huri, rfl⟩ := startElement_eq_ok h
  have hscope : ∀ b ∈ innerScope tag.bindings p.scope, b.Proper := by
    unfold innerScope
    split
    · exact hp.scope_proper
    · exact scopeWithin_proper htag.bindings hp.scope_proper
  obtain ⟨hproper, hdistinct⟩ :=
    resolveAttributes_proper hscope hattributes htag.attributes nofun List.nodup_nil
  have helement : Element.Proper
      { name := nameIn (innerScope tag.bindings p.scope) uri written.localPart
        attributes
        bindings := (innerScope tag.bindings p.scope).filter fun b => !p.scope.contains b } :=
    { spelled := nameIn_spelled hscope hwritten.localPart
      label := labelFor_ne_xmlLabel hscope (uriOf_ne_xmlUri hscope huri)
      attributes := hproper
      distinct := hdistinct
      bindings := fun b hb => hscope b (List.mem_of_mem_filter hb) }
  obtain ⟨hlt, hbranch⟩ := hp.parent_lt
  -- The elements that are open stay what they are when a node is added.
  have hold : ∀ (x : Payload), ∀ o ∈ p.path, o.id < (p.doc.push p.parent x).1.size ∧
      (p.doc.push p.parent x).1.IsBranch o.id ∧ ∀ b ∈ o.scope, b.Proper := by
    intro x o ho
    obtain ⟨holt, hobranch, hoscope⟩ := hp.opened o ho
    exact ⟨Nat.lt_of_lt_of_le holt (growsTo_push hlt x).size_le, hobranch.push holt _ _, hoscope⟩
  refine ⟨hp.doc.push hlt hbranch helement nofun, ?_⟩
  cases isOpen with
  | true =>
    refine List.forall_mem_cons.2 ⟨⟨?_, .inr ?_, hscope⟩, hold _⟩
    · rw [size_push]
      exact Nat.lt_succ_self _
    · rw [element?, payload_push, if_pos rfl]
      rfl
  | false => exact hold _

theorem endElement_sound {p p' : Progress} {written : Qualified}
    (h : endElement p written = .ok p') (hp : p.Sound) : p'.Sound := by
  obtain ⟨o, path, hpath, rfl⟩ := endElement_eq_ok h
  exact ⟨hp.doc, fun o' ho' => hp.opened o' (hpath ▸ List.mem_cons_of_mem o ho')⟩

theorem sound_kept : Progress.Kept Progress.Sound where
  wait _ _ hp := ⟨hp.doc, hp.opened⟩
  add hx hp := hp.add hx
  addText hcontent hp := hp.addText hcontent
  startElement h hwritten htag hp := startElement_sound h hwritten htag hp
  endElement h hp := endElement_sound h hp

/-- Reading a text gives a well-formed document. -/
theorem Document.WellFormed.of_read {text : String} {origin : Option String} {d : Document}
    (h : Document.read text origin = .ok d) : d.WellFormed := by
  obtain ⟨d, hd, rfl⟩ := map_eq_ok_iff.1 h
  have hformed : d.WellFormed := holds_of_chars wellFormed_empty
    (fun _ _ hx h => h.push h.linked.root_lt (.inl rfl) hx.proper fun s hs => by
      rw [hs] at hx
      exact hx.elim)
    (fun _ h => ⟨h, by simp [Progress.start]⟩) sound_kept (fun _ hp => hp.doc) hd
  have hshaped := hformed.shaped
  exact ⟨hformed.linked.withOrigin origin, ⟨hshaped.top, hshaped.branch, hshaped.apart⟩,
    hformed.nodes⟩

namespace Document.WellFormed

variable {d : Document} {n : NodeId}

theorem element_proper (h : d.WellFormed) {e : Element} (he : d.element? n = some e) :
    e.Proper := by
  have hpayload := element?_eq_some_iff.1 he
  have hn : n < d.size := Nat.lt_of_not_le fun hle => by
    simp [payload, getElem?_eq_none hle] at hpayload
  have hne : n ≠ root := by
    rintro rfl
    cases hpayload.symm.trans h.shaped.top
  have hproper := h.nodes n hn hne
  rwa [hpayload] at hproper

theorem attributes_proper (h : d.WellFormed) : ∀ a ∈ d.attributes n, a.Proper := by
  unfold attributes
  split
  · next e he => exact (h.element_proper he).attributes
  · exact nofun

theorem nodup_expandedNames (h : d.WellFormed) : (expandedNames (d.attributes n)).Nodup := by
  unfold attributes
  split
  · next e he => exact (h.element_proper he).distinct
  · exact List.nodup_nil

end Document.WellFormed

end MarkupRules.Markup
