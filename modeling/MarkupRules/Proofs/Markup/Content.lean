/-
# Content that is written is read

Reading content goes on from construct to construct, each of which takes something off the text.
What is written for a node takes the pass to the end of it and plants a tree that tells the same:
its names may have other labels, because the reader keeps the first label bound to a namespace. This
is shown for a node from its children. The writer and the reader each have their own list of the
bindings in force, and both agree with the labels of the document at the node.

Key definitions: `Reaches`, `Payload.Retained`, `Plants`, `Document.ReadsAs`.

Key theorems: `reaches_startTag`, `reaches_text`, `exists_plants`, `WellFormed.exists_readsAs`.
-/
import MarkupRules.Proofs.Markup.WellFormed

namespace MarkupRules.Markup

open Document (root)

/-! ### From construct to construct -/

section Content

variable {entities : List Entity} {expand : Expand}

/-- Where a pass through content stands. -/
structure Stand where
  /-- What has been read. -/
  progress : Progress
  /-- One more than the number of elements opened and not closed. -/
  depth : Nat
  /-- What is left to be read. -/
  left : List Char

/-- Reading content comes from one stand to another, with fuel enough for what is left. -/
def Reaches (entities : List Entity) (expand : Expand) (s s' : Stand) : Prop :=
  ∀ fuel, s.left.length < fuel → ∃ fuel', s'.left.length < fuel' ∧
    takeContent entities entityLevels expand false fuel s.progress s.depth true s.left =
      takeContent entities entityLevels expand false fuel' s'.progress s'.depth true s'.left

theorem Reaches.refl (s : Stand) : Reaches entities expand s s :=
  fun fuel hfuel => ⟨fuel, hfuel, rfl⟩

theorem Reaches.trans {s s' s'' : Stand} (h : Reaches entities expand s s')
    (h' : Reaches entities expand s' s'') : Reaches entities expand s s'' := by
  intro fuel hfuel
  obtain ⟨fuel', hfuel', heq⟩ := h fuel hfuel
  obtain ⟨fuel'', hfuel'', heq'⟩ := h' fuel' hfuel'
  exact ⟨fuel'', hfuel'', heq.trans heq'⟩

/-- One step takes one unit of fuel and something off the text. -/
theorem Reaches.of_step {s s' : Stand} (hlength : s'.left.length < s.left.length)
    (hstep : ∀ fuel,
      takeContent entities entityLevels expand false (fuel + 1) s.progress s.depth true s.left =
        takeContent entities entityLevels expand false fuel s'.progress s'.depth true s'.left) :
    Reaches entities expand s s' := by
  intro fuel hfuel
  obtain ⟨fuel, rfl⟩ : ∃ k, fuel = k + 1 := ⟨fuel - 1, by omega⟩
  exact ⟨fuel, by omega, hstep fuel⟩

variable {p : Progress} {depth : Nat} {rest : List Char}

theorem reaches_comment {s : String} (h : IsRemarkText s) :
    Reaches entities expand ⟨p, depth, "<!--".toList ++ (s.toList ++ ("-->".toList ++ rest))⟩
      ⟨p.add (.comment s), depth, rest⟩ := by
  refine .of_step (by simp; omega) fun fuel => ?_
  have hopens : "<!--".toList ++ (s.toList ++ ("-->".toList ++ rest)) =
      '<' :: '!' :: '-' :: '-' :: (s.toList ++ ("-->".toList ++ rest)) := rfl
  have hbegins : begins "--" ('-' :: '-' :: (s.toList ++ ("-->".toList ++ rest))) = true := rfl
  dsimp only
  rw [hopens, takeContent, if_pos hbegins]
  simp only [List.drop_succ_cons, List.drop_zero]
  rw [takeComment_append h, ok_bind, String.ofList_toList]

theorem reaches_instruction {target content : String} (htarget : IsTarget target)
    (h : IsInstructionText content) (hxml : ¬ (target = "xml" ∧ content ≠ "")) :
    Reaches entities expand ⟨p, depth, writeInstruction target content ++ rest⟩
      ⟨p.add (.instruction target content), depth, rest⟩ := by
  refine .of_step (by simp [writeInstruction_eq]; omega) fun fuel => ?_
  dsimp only
  rw [writeInstruction_eq, takeContent, takeInstruction_append htarget h hxml, ok_bind]
  dsimp only
  rw [String.ofList_toList, String.ofList_toList]

theorem escapeText_ne_nil {s : String} (h : s ≠ "") : escapeText s ≠ [] := by
  obtain ⟨c, cs, hlist⟩ := List.exists_cons_of_ne_nil (mt String.toList_eq_nil_iff.1 h)
  rw [escapeText, hlist, List.flatMap_cons]
  rcases writesChar_escapeTextChar c with ⟨hwritten, -⟩ | ⟨body, hwritten, -⟩
  · simp [hwritten]
  · simp [hwritten]

/-- Character data is read up to the next bracket. -/
theorem reaches_text {s : String} (hsome : s ≠ "") (hchars : ∀ c ∈ s.toList, isMarkupChar c)
    (hreturn : '\r' ∉ s.toList) (hrest : rest.head? = some '<') :
    Reaches entities expand ⟨p, depth, escapeText s ++ rest⟩
      ⟨p.addText s.toList, depth, rest⟩ := by
  have hinside : ∀ c ∈ escapeText s, decide (c ≠ '<') = true := fun c hc =>
    decide_eq_true (mem_escapeText hchars hc).2.1
  have hstop : ∀ c ∈ rest.head?, decide (c ≠ '<') = false := by
    rw [hrest]
    simp
  have hspan : (escapeText s ++ rest).takeWhile (· ≠ '<') = escapeText s :=
    takeWhile_run hinside hstop
  have hbehind : (escapeText s ++ rest).dropWhile (· ≠ '<') = rest := dropWhile_run hinside hstop
  have hread : takeText entities expand false ((escapeText s).length + 1) p [] false
      (escapeText s) = .ok (p.addText s.toList) := by
    have hne : s.toList.reverse ++ [] ≠ [] := by simpa using hsome
    have hchars' : ∀ c ∈ s.toList, c ≠ '\r' := fun c hc heq => hreturn (heq ▸ hc)
    rw [escapeText, takeText_escapeTextChars hchars' (by simp) (Nat.lt_succ_self _), if_neg hne,
      List.append_nil, List.reverse_reverse]
  obtain ⟨c, cs, hcs⟩ : ∃ c cs, escapeText s = c :: cs :=
    List.exists_cons_of_ne_nil (escapeText_ne_nil hsome)
  have hc : c ≠ '<' := (mem_escapeText hchars (hcs ▸ List.mem_cons_self)).2.1
  have hlength : rest.length < (escapeText s ++ rest).length := by
    rw [hcs, List.cons_append, List.length_cons, List.length_append]
    omega
  refine .of_step hlength fun fuel => ?_
  rw [hcs, List.cons_append] at hspan hbehind
  dsimp only
  rw [hcs, List.cons_append, takeContent]
  · rw [hspan, hbehind, ← hcs, checkText_escapeText hchars, ok_bind, hread, ok_bind]
  all_goals
    intros
    simp_all

/-! ### Tags -/

theorem takeContent_tag {c : Char} {cs : List Char} (hc : isNameStart c) (fuel : Nat) :
    takeContent entities entityLevels expand false (fuel + 1) p depth true ('<' :: c :: cs) =
      (takeElement entities entityLevels false p (c :: cs) >>= fun s =>
        takeContent entities entityLevels expand false fuel s.1
          (if s.2.1 then depth + 1 else depth) true s.2.2) := by
  have hmark : c ≠ '!' := ne_of_isNameStart hc (by decide)
  have hquestion : c ≠ '?' := ne_of_isNameStart hc (by decide)
  have hslash : c ≠ '/' := ne_of_isNameStart hc (by decide)
  rw [takeContent]
  all_goals simp_all

theorem endElement_eq {written : Qualified} {o : Open} {path : List Open}
    (hpath : p.path = o :: path) (hopen : o.written = written) (hpending : p.pending = .empty) :
    endElement p written = .ok { p with path } := by
  have hnone : resolveAttributes (scopeWithin p.pending.bindings p.scope) []
      p.pending.attributes = .ok [] := by
    rw [hpending]
    rfl
  rw [endElement, hnone, ok_bind, hpath]
  dsimp only
  rw [if_pos hopen, hpending]

theorem reaches_startTag {lookup : Option String → Option String} {declared : List Binding}
    {e : Element} {isOpen : Bool} (hpending : p.pending = .empty)
    (hdeclared : ∀ b ∈ declared, b.Declarable) (hnodup : (declared.map Binding.label).Nodup)
    (hagrees : Agrees lookup (innerScope declared p.scope))
    (hxml : lookup (some xmlLabel) = some xmlUri) (he : e.Writable lookup) :
    Reaches entities expand ⟨p, depth, openTag e declared ++ (tagEnding isOpen ++ rest)⟩
      ⟨p.started e declared isOpen, if isOpen then depth + 1 else depth, rest⟩ := by
  have hread : takeElement entities entityLevels false p
      (tagText e declared ++ (tagEnding isOpen ++ rest)) =
        .ok (p.started e declared isOpen, isOpen, rest) :=
    takeElement_tagText hpending hdeclared hnodup hagrees hxml he
  obtain ⟨c, cs, hlist, hc⟩ := he.proper.spelled.exists_cons
  have htext : tagText e declared = c :: (cs ++ (declared.flatMap writeBinding ++
      e.attributes.flatMap writeAttribute)) := by
    rw [tagText, hlist, List.cons_append]
  have hlength : rest.length < (openTag e declared ++ (tagEnding isOpen ++ rest)).length := by
    simp only [openTag_eq, List.length_cons, List.length_append]
    omega
  refine .of_step hlength fun fuel => ?_
  dsimp only
  rw [openTag_eq, List.cons_append]
  rw [htext, List.cons_append] at hread ⊢
  rw [takeContent_tag hc, hread, ok_bind]

/-- An end tag closes the element around it. Where that was the first one to be opened, the content
ends. -/
theorem takeContent_endTag {name : Name} {o : Open} {path : List Open}
    (hname : Spelled name.label name.localPart) (hpath : p.path = o :: path)
    (hopen : o.written = ⟨name.label, name.localPart⟩) (hpending : p.pending = .empty)
    (fuel : Nat) :
    takeContent entities entityLevels expand false (fuel + 1) p depth true
        ("</".toList ++ (name.written.toList ++ '>' :: rest)) =
      if depth ≤ 1 then .ok ({ p with path }, rest)
      else takeContent entities entityLevels expand false fuel { p with path } (depth - 1) true
        rest := by
  have hopens : "</".toList ++ (name.written.toList ++ '>' :: rest) =
      '<' :: '/' :: (name.written.toList ++ '>' :: rest) := rfl
  have hqualified : takeQualified (name.written.toList ++ '>' :: rest) =
      .ok (⟨name.label, name.localPart⟩, '>' :: rest) :=
    takeQualified_written hname (by simp; decide)
  have hclose : expectChar '>' (skipSpace ('>' :: rest)) = .ok rest := rfl
  rw [hopens, takeContent, hqualified, ok_bind]
  dsimp only
  rw [hclose, ok_bind, endElement_eq hpath hopen hpending, ok_bind]
  simp

theorem reaches_endTag {name : Name} {o : Open} {path : List Open}
    (hname : Spelled name.label name.localPart) (hpath : p.path = o :: path)
    (hopen : o.written = ⟨name.label, name.localPart⟩) (hpending : p.pending = .empty)
    (hdepth : 1 < depth) :
    Reaches entities expand ⟨p, depth, "</".toList ++ (name.written.toList ++ '>' :: rest)⟩
      ⟨{ p with path }, depth - 1, rest⟩ := by
  refine .of_step (by simp; omega) fun fuel => ?_
  dsimp only
  rw [takeContent_endTag hname hpath hopen hpending, if_neg (Nat.not_le_of_lt hdepth)]

end Content

/-! ### Nodes -/

/-- What a node may be so that nothing of it gets lost when it is written and read again. Labels are
looked up in the given way. -/
def Payload.Retained (lookup : Option String → Option String) : Payload → Prop
  | .element e => e.Retained lookup
  | .text s => s ≠ "" ∧ '\r' ∉ s.toList
  | .instruction target content => ¬ (target = "xml" ∧ content ≠ "")
  | _ => True

/-- A text is read as a forest that is planted below the node that content is added to, where the
reader has some bindings in force. -/
def Plants (scope : List Binding) (cs : List Char) (ts : List Tree) : Prop :=
  ∀ {entities : List Entity} {expand : Expand} {p : Progress} {depth : Nat} {rest : List Char},
    p.scope = scope → p.pending = .empty → 1 ≤ depth → rest.head? = some '<' →
      Reaches entities expand ⟨p, depth, cs ++ rest⟩
        ⟨{ p with doc := p.doc.plantAll p.parent ts }, depth, rest⟩

namespace Document

variable {d : Document} {W S : List Binding} {n : NodeId} {fuel : Nat}

/-- What is written for a node is read as a tree that tells the same. The bindings in force are
those that the writer and the reader have at the node above it. -/
structure ReadsAs (d : Document) (fuel : Nat) (W S : List Binding) (n : NodeId) (t : Tree) :
    Prop where
  /-- The tree is that of the node but for its labels. -/
  same : t.unlabelled = (d.subtree n).unlabelled
  /-- It is planted by the pass. Behind character data the next construct has to follow. -/
  plants : ∀ {entities : List Entity} {expand : Expand} {p : Progress} {depth : Nat}
    {rest : List Char}, p.scope = S → p.pending = .empty → 1 ≤ depth →
      (d.isText n → rest.head? = some '<') →
        Reaches entities expand ⟨p, depth, d.writeNode fuel W n ++ rest⟩
          ⟨{ p with doc := p.doc.plant p.parent t }, depth, rest⟩

/-- What is written for anything but character data begins with a bracket. -/
theorem head?_writeNode (hdocument : d.payload n ≠ .document) (htext : d.isText n = false)
    (fuel : Nat) (rest : List Char) :
    (d.writeNode (fuel + 1) W n ++ rest).head? = some '<' := by
  rw [writeNode]
  rcases hpayload : d.payload n with _ | e | s | s | ⟨target, s⟩
  · exact absurd hpayload hdocument
  · simp only [openTag_eq]
    split <;> rfl
  · rw [isText, hpayload] at htext
    cases htext
  · rfl
  · rfl

/-- Nodes next to each other are read as trees next to each other, if no two of them are character
data. -/
theorem exists_plants {ns : List NodeId}
    (hns : ∀ n ∈ ns, d.payload n ≠ .document ∧ ∃ t, d.ReadsAs (fuel + 1) W S n t)
    (hapart : ns.IsChain fun a b => ¬ (d.isText a ∧ d.isText b)) :
    ∃ ts : List Tree, ts.map Tree.unlabelled = ns.map (fun n => (d.subtree n).unlabelled) ∧
      Plants S (ns.flatMap fun n => d.writeNode (fuel + 1) W n) ts := by
  induction ns with
  | nil => exact ⟨[], rfl, fun _ _ _ _ => .refl _⟩
  | cons n ns ih =>
    obtain ⟨⟨hdocument, t, ht⟩, hns⟩ := List.forall_mem_cons.1 hns
    have htail : ns.IsChain fun a b => ¬ (d.isText a ∧ d.isText b) := by
      rcases ns with _ | ⟨b, ns⟩
      · exact .nil
      · exact (List.isChain_cons_cons.1 hapart).2
    obtain ⟨ts, hsame, hts⟩ := ih hns htail
    refine ⟨t :: ts, by rw [List.map_cons, List.map_cons, ht.same, hsame], ?_⟩
    intro entities expand p depth rest hscope hpending hdepth hrest
    have hnext : d.isText n → ((ns.flatMap fun n => d.writeNode (fuel + 1) W n) ++ rest).head? =
        some '<' := by
      intro htext
      rcases ns with _ | ⟨b, ns⟩
      · exact hrest
      · have hb : d.isText b = false := Bool.eq_false_iff.2 fun hb =>
          (List.isChain_cons_cons.1 hapart).1 ⟨htext, hb⟩
        rw [List.flatMap_cons, List.append_assoc]
        exact head?_writeNode (hns b List.mem_cons_self).1 hb fuel _
    rw [List.flatMap_cons, List.append_assoc]
    exact (ht.plants hscope hpending hdepth hnext).trans (hts hscope hpending hdepth hrest)

/-! ### Elements -/

theorem lookupUri?_xmlLabel (d : Document) (n : NodeId) :
    d.lookupUri? n (some xmlLabel) = some xmlUri :=
  if_pos rfl

section Element

variable {e : Element} {content : List Char} {ts : List Tree}

/-- The declarations in the start tag of an element, and the bindings in force inside it for the
writer and for the reader. -/
theorem scopes_inside (h : d.Linked) {parent : NodeId} (hover : d.Over parent n)
    (he : d.element? n = some e) (hwritable : e.Writable (d.lookupUri? n))
    (hW : Agrees (d.lookupUri? parent) W) (hS : Agrees (d.lookupUri? parent) S) :
    (declarations W e).declared = missing W e.bindings ∧
      Agrees (d.lookupUri? n) (declarations W e).scope ∧
        Agrees (d.lookupUri? n) (innerScope (missing W e.bindings) S) := by
  have hinside : ∀ label, label ≠ some xmlLabel → d.lookupUri? n label =
      (boundUri? e.bindings label).or (d.lookupUri? parent label) :=
    fun label hlabel => lookupUri?_of_over h hover he hlabel
  obtain ⟨hdeclarations, hscope⟩ := declarations_eq hW hwritable.retained.nodup
    (fun b hb => (hwritable.proper.bindings b hb).label) hinside hwritable.retained.told
  exact ⟨by rw [hdeclarations], hscope,
    agrees_innerScope hW hS hwritable.retained.nodup hinside⟩

/-- An element as it is written where some bindings are declared in its start tag. -/
def elementText (e : Element) (declared : List Binding) (isLeaf : Bool) (content : List Char) :
    List Char :=
  if isLeaf then openTag e declared ++ tagEnding false
  else openTag e declared ++ (tagEnding true ++ (content ++
    ("</".toList ++ (e.name.written.toList ++ ['>']))))

theorem writeNode_element (hpayload : d.payload n = .element e)
    (hdeclared : (declarations W e).declared = missing W e.bindings) :
    d.writeNode (fuel + 1) W n =
      elementText e (missing W e.bindings) (d.children n).isEmpty
        ((d.children n).flatMap fun c => d.writeNode fuel (declarations W e).scope c) := by
  rw [writeNode, hpayload, ← hdeclared, elementText]
  rfl

/-- The tree that is read for an element. -/
def elementTree (e : Element) (declared outer : List Binding) (ts : List Tree) : Tree :=
  .node (.element (e.readIn declared outer)) ts

theorem unlabelled_elementTree (h : d.Linked) (hpayload : d.payload n = .element e)
    (hsame : ts.map Tree.unlabelled = (d.forest n).map Tree.unlabelled)
    (declared outer : List Binding) :
    (elementTree e declared outer ts).unlabelled = (d.subtree n).unlabelled := by
  rw [elementTree, h.subtree_eq, hpayload, Tree.unlabelled, Tree.unlabelled,
    Tree.unlabelledAll_eq_map, Tree.unlabelledAll_eq_map, hsame, Payload.unlabelled,
    unlabelled_readIn]
  rfl

/-- Once the element is closed, the pass goes on around it with the element and its content
planted. -/
theorem plant_elementTree (p : Progress) (e : Element) (declared : List Binding)
    (ts : List Tree) (isOpen : Bool) (hpending : p.pending = .empty) :
    { p.started e declared isOpen with
        doc := (p.started e declared isOpen).doc.plantAll p.doc.size ts, path := p.path } =
      { p with doc := p.doc.plant p.parent (elementTree e declared p.scope ts) } := by
  have hid : (p.doc.push p.parent (.element (e.readIn declared p.scope))).2 = p.doc.size := rfl
  simp only [Progress.started, elementTree, plant, hid, ← hpending]

/-- An element without content is read as a tree with nothing below it. -/
theorem readsAs_empty (h : d.Linked) {parent : NodeId} (hover : d.Over parent n)
    (hpayload : d.payload n = .element e) (hwritable : e.Writable (d.lookupUri? n))
    (hW : Agrees (d.lookupUri? parent) W) (hS : Agrees (d.lookupUri? parent) S)
    (hnone : d.children n = []) :
    d.ReadsAs (fuel + 1) W S n (elementTree e (missing W e.bindings) S []) := by
  obtain ⟨hdeclared, -, hinside⟩ :=
    scopes_inside h hover (element?_eq_some_iff.2 hpayload) hwritable hW hS
  refine ⟨unlabelled_elementTree h hpayload (by rw [forest, hnone]; rfl) _ _, ?_⟩
  intro entities expand p depth rest hscope hpending hdepth _
  subst hscope
  have hwritten : d.writeNode (fuel + 1) W n ++ rest =
      openTag e (missing W e.bindings) ++ (tagEnding false ++ rest) := by
    rw [writeNode_element hpayload hdeclared, hnone, elementText, List.isEmpty_nil, if_pos rfl,
      List.append_assoc]
  have hplanted := plant_elementTree p e (missing W e.bindings) [] false hpending
  rw [hwritten, ← hplanted]
  exact reaches_startTag hpending
    (fun b hb => hwritable.binding b (List.mem_of_mem_filter hb))
    (nodup_missing hwritable.retained.nodup) hinside (lookupUri?_xmlLabel d n) hwritable

/-- An element with content is read as a tree over what its content is read as. -/
theorem readsAs_branch (h : d.Linked) {parent : NodeId} (hover : d.Over parent n)
    (hpayload : d.payload n = .element e) (hwritable : e.Writable (d.lookupUri? n))
    (hW : Agrees (d.lookupUri? parent) W) (hS : Agrees (d.lookupUri? parent) S)
    (hsome : d.children n ≠ [])
    (hsame : ts.map Tree.unlabelled = (d.forest n).map Tree.unlabelled)
    (hplants : Plants (innerScope (missing W e.bindings) S)
      ((d.children n).flatMap fun c => d.writeNode fuel (declarations W e).scope c) ts) :
    d.ReadsAs (fuel + 1) W S n (elementTree e (missing W e.bindings) S ts) := by
  obtain ⟨hdeclared, -, hinside⟩ :=
    scopes_inside h hover (element?_eq_some_iff.2 hpayload) hwritable hW hS
  refine ⟨unlabelled_elementTree h hpayload hsame _ _, ?_⟩
  intro entities expand p depth rest hscope hpending hdepth _
  subst hscope
  generalize hcontent : ((d.children n).flatMap fun c =>
    d.writeNode fuel (declarations W e).scope c) = content at hplants
  generalize hclose : "</".toList ++ (e.name.written.toList ++ '>' :: rest) = close
  have hwritten : d.writeNode (fuel + 1) W n ++ rest =
      openTag e (missing W e.bindings) ++ (tagEnding true ++ (content ++ close)) := by
    rw [writeNode_element hpayload hdeclared, hcontent, elementText,
      if_neg (by simpa using hsome), ← hclose]
    simp
  -- The start tag opens the element, its content is planted there, and the end tag closes it.
  have hstart : Reaches entities expand
      ⟨p, depth, openTag e (missing W e.bindings) ++ (tagEnding true ++ (content ++ close))⟩
      ⟨p.started e (missing W e.bindings) true, depth + 1, content ++ close⟩ :=
    reaches_startTag hpending (fun b hb => hwritable.binding b (List.mem_of_mem_filter hb))
      (nodup_missing hwritable.retained.nodup) hinside (lookupUri?_xmlLabel d n) hwritable
  generalize hq : p.started e (missing W e.bindings) true = q at hstart
  have hpath : q.path = ⟨p.doc.size, ⟨e.name.label, e.name.localPart⟩,
      innerScope (missing W e.bindings) p.scope⟩ :: p.path := by rw [← hq]; rfl
  have hcontent : Reaches entities expand ⟨q, depth + 1, content ++ close⟩
      ⟨{ q with doc := q.doc.plantAll q.parent ts }, depth + 1, close⟩ :=
    hplants (by rw [Progress.scope, hpath]) (by rw [← hq]; rfl) (Nat.le_add_left 1 depth)
      (by rw [← hclose]; rfl)
  have hend : Reaches entities expand ⟨{ q with doc := q.doc.plantAll q.parent ts }, depth + 1,
      "</".toList ++ (e.name.written.toList ++ '>' :: rest)⟩
      ⟨{ q with doc := q.doc.plantAll q.parent ts, path := p.path }, depth + 1 - 1, rest⟩ :=
    reaches_endTag hwritable.proper.spelled hpath rfl (by rw [← hq]; rfl) (by omega)
  have hplanted := plant_elementTree p e (missing W e.bindings) ts true hpending
  have hparent : q.parent = p.doc.size := by rw [Progress.parent, hpath]
  rw [hq, ← hparent] at hplanted
  rw [hwritten, ← hplanted]
  rw [hclose] at hend
  exact (hstart.trans hcontent).trans hend

end Element

/-! ### All nodes -/

theorem WellFormed.rooted (h : d.WellFormed) : d.Rooted := by
  intro n hn hne heq
  have hproper := h.nodes n hn hne
  rw [heq] at hproper
  exact hproper

theorem WellFormed.payload_ne_document (h : d.WellFormed) {parent : NodeId}
    (hover : d.Over parent n) : d.payload n ≠ .document :=
  h.rooted n (lt_size_of_parent? hover) (h.linked.ne_root_of_over hover)

/-- A node that is neither the document node nor an element is a tree of its own. -/
theorem WellFormed.subtree_of_leaf (h : d.WellFormed) {parent : NodeId} (hover : d.Over parent n)
    (hnone : d.element? n = none) : d.subtree n = .node (d.payload n) [] := by
  rw [h.linked.subtree_eq,
    h.shaped.children_eq_nil (h.linked.ne_root_of_over hover) hnone, List.map_nil]

/-- What is written for a leaf is read as the leaf. -/
theorem WellFormed.readsAs_leaf (h : d.WellFormed) {parent : NodeId} (hover : d.Over parent n)
    (hnone : d.element? n = none) (hretained : (d.payload n).Retained (d.lookupUri? n)) :
    d.ReadsAs (fuel + 1) W S n (.node (d.payload n) []) := by
  have hproper := h.nodes n (lt_size_of_parent? hover) (h.linked.ne_root_of_over hover)
  refine ⟨by rw [h.subtree_of_leaf hover hnone], ?_⟩
  intro entities expand p depth rest _ _ _ hrest
  rcases hpayload : d.payload n with _ | e | s | s | ⟨target, s⟩
  · exact absurd hpayload (h.payload_ne_document hover)
  · rw [element?, hpayload] at hnone
    cases hnone
  · rw [hpayload] at hproper hretained
    have hreaches : Reaches entities expand ⟨p, depth, escapeText s ++ rest⟩
        ⟨p.addText s.toList, depth, rest⟩ :=
      reaches_text hretained.1 hproper hretained.2 (hrest (isText_iff.2 ⟨s, hpayload⟩))
    rw [Progress.addText, String.ofList_toList] at hreaches
    rw [writeNode, hpayload]
    exact hreaches
  · rw [hpayload] at hproper
    rw [writeNode, hpayload, List.append_assoc, List.append_assoc]
    exact reaches_comment hproper
  · rw [hpayload] at hproper hretained
    rw [writeNode, hpayload]
    exact reaches_instruction hproper.1 hproper.2 hretained

/-- What is written for the content of an element is read as trees that tell the same, if that
holds of each child. -/
theorem WellFormed.exists_plants_below (h : d.WellFormed) (hfuel : d.size - n ≤ fuel + 1)
    (hbelow : ∀ c ∈ d.children n, ∃ t, d.ReadsAs fuel W S c t) :
    ∃ ts : List Tree, ts.map Tree.unlabelled = (d.forest n).map Tree.unlabelled ∧
      Plants S ((d.children n).flatMap fun c => d.writeNode fuel W c) ts := by
  rcases hcs : d.children n with _ | ⟨c, cs⟩
  · exact ⟨[], by rw [forest, hcs]; rfl, fun _ _ _ _ => .refl _⟩
  rw [← hcs]
  have hlt := h.linked.mem_children_lt (hcs ▸ List.mem_cons_self : c ∈ d.children n)
  obtain ⟨fuel, rfl⟩ : ∃ k, fuel = k + 1 := ⟨fuel - 1, by omega⟩
  have hall : ∀ c ∈ d.children n, d.payload c ≠ .document ∧
      ∃ t, d.ReadsAs (fuel + 1) W S c t := fun c hc =>
    ⟨h.payload_ne_document (h.linked.mem_children_iff.1 hc), hbelow c hc⟩
  obtain ⟨ts, hsame, hplants⟩ := exists_plants hall (h.shaped.apart n)
  refine ⟨ts, ?_, hplants⟩
  rw [hsame, forest, List.map_map]
  rfl

/-- What is written for a node of a well-formed document is read as a tree that tells the same, if
nothing of the nodes gets lost. -/
theorem WellFormed.exists_readsAs (h : d.WellFormed)
    (hnodes : ∀ n : Nat, n < d.size → (d.payload n).Retained (d.lookupUri? n)) {n : NodeId} :
    ∀ {parent : NodeId} {fuel : Nat} {W S : List Binding}, d.Over parent n →
      Agrees (d.lookupUri? parent) W → Agrees (d.lookupUri? parent) S → d.size - n ≤ fuel →
        ∃ t, d.ReadsAs fuel W S n t := by
  induction n using h.linked.induction_below with
  | step n ih =>
    intro parent fuel W S hover hW hS hfuel
    have hn : n < d.size := lt_size_of_parent? hover
    obtain ⟨fuel, rfl⟩ : ∃ k, fuel = k + 1 :=
      Nat.exists_eq_add_one_of_ne_zero
        (Nat.ne_of_gt (Nat.lt_of_lt_of_le (Nat.sub_pos_of_lt hn) hfuel))
    rcases he : d.element? n with _ | e
    · exact ⟨_, h.readsAs_leaf hover he (hnodes n hn)⟩
    have hpayload := element?_eq_some_iff.1 he
    have hproper := h.nodes n hn (h.linked.ne_root_of_over hover)
    have hretained := hnodes n hn
    rw [hpayload] at hproper hretained
    have hwritable : e.Writable (d.lookupUri? n) := ⟨hproper, hretained⟩
    by_cases hnone : d.children n = []
    · exact ⟨_, readsAs_empty h.linked hover hpayload hwritable hW hS hnone⟩
    obtain ⟨-, hW', hS'⟩ := scopes_inside h.linked hover he hwritable hW hS
    have hbelow : ∀ c ∈ d.children n, ∃ t, d.ReadsAs fuel (declarations W e).scope
        (innerScope (missing W e.bindings) S) c t := by
      intro c hc
      have hlt := h.linked.mem_children_lt hc
      exact ih c hc (h.linked.mem_children_iff.1 hc) hW' hS' (by omega)
    obtain ⟨ts, hsame, hplants⟩ := h.exists_plants_below hfuel hbelow
    exact ⟨_, readsAs_branch h.linked hover hpayload hwritable hW hS hnone hsame hplants⟩

end Document

end MarkupRules.Markup
