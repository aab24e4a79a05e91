/-
# Documents that are written are read

Around the element of a document stand comments and processing instructions, which are read before
and after the pass through its content. So the text of a whole document is read again, and the tree
that is read tells the same, if nothing in the document gets lost: character data is there and holds
no carriage returns, values hold neither tabs nor carriage returns, names have the namespaces of
their labels, attributes in a namespace have a label, and there is one element at the top.

Key definitions: `Document.Retained`.

Key theorems: `takeMisc_remarks`, `takeRootElement_written`, `read_toXml`.
-/
import MarkupRules.Proofs.Markup.Content
import MarkupRules.Proofs.Markup.Settled

namespace MarkupRules.Markup

open Document (root)

/-! ### Comments and processing instructions -/

/-- What is written for a comment or a processing instruction. -/
def remarkText : Payload → List Char
  | .comment s => "<!--".toList ++ (s.toList ++ "-->".toList)
  | .instruction target content => writeInstruction target content
  | _ => []

/-- A text in front of which no comment or processing instruction is read. -/
def EndsMisc (rest : List Char) : Prop :=
  ∀ (d : Document) (fuel : Nat), takeMisc (fuel + 1) d rest = .ok (d, rest)

section Misc

variable {rest : List Char} {lookup : Option String → Option String}

theorem endsMisc_nil : EndsMisc [] := fun _ _ => rfl

theorem endsMisc_tag {c : Char} (hc : isNameStart c) (rest : List Char) :
    EndsMisc ('<' :: c :: rest) := by
  intro d fuel
  have hmark : c ≠ '!' := ne_of_isNameStart hc (by decide)
  have hquestion : c ≠ '?' := ne_of_isNameStart hc (by decide)
  have hskip : skipSpace ('<' :: c :: rest) = '<' :: c :: rest := rfl
  rw [takeMisc, hskip]
  split
  · next heq => exact absurd (List.cons.inj (List.cons.inj heq).2).1 hmark
  · next heq => exact absurd (List.cons.inj (List.cons.inj heq).2).1 hquestion
  · rfl

/-- Remarks have no names, so it does not matter how labels are looked up. -/
theorem Payload.IsRemark.retained {x : Payload} (hx : x.IsRemark)
    {lookup' : Option String → Option String} (h : x.Retained lookup) : x.Retained lookup' := by
  cases x with
  | comment s => exact h
  | instruction target content => exact h
  | _ => exact hx.elim

/-- A comment or processing instruction that is written is read. -/
theorem takeMisc_remark {x : Payload} (hx : x.IsRemark) (hretained : x.Retained lookup)
    (d : Document) (fuel : Nat) :
    takeMisc (fuel + 1) d (remarkText x ++ rest) = takeMisc fuel (d.push root x).1 rest := by
  cases x with
  | comment s =>
    have hopens : remarkText (.comment s) ++ rest =
        '<' :: '!' :: '-' :: '-' :: (s.toList ++ ("-->".toList ++ rest)) := by
      simp [remarkText]
    have hskip : skipSpace ('<' :: '!' :: '-' :: '-' :: (s.toList ++ ("-->".toList ++ rest))) =
        '<' :: '!' :: '-' :: '-' :: (s.toList ++ ("-->".toList ++ rest)) := rfl
    rw [hopens, takeMisc, hskip]
    split
    · next heq =>
      cases heq
      rw [takeComment_append hx, ok_bind]
      dsimp only
      rw [String.ofList_toList]
      rfl
    · next heq => cases heq
    · next hno _ => exact absurd rfl (hno _)
  | instruction target content =>
    have hskip : skipSpace ('<' :: '?' :: (target.toList ++
        (instructionTail content ++ ("?>".toList ++ rest)))) =
        '<' :: '?' :: (target.toList ++ (instructionTail content ++ ("?>".toList ++ rest))) := rfl
    rw [remarkText, writeInstruction_eq, takeMisc, hskip]
    split
    · next heq => cases heq
    · next heq =>
      cases heq
      rw [takeInstruction_append hx.1 hx.2 hretained, ok_bind]
      dsimp only
      rw [String.ofList_toList, String.ofList_toList]
    · next hno => exact absurd rfl (hno _)
  | _ => exact hx.elim

theorem takeMisc_remarks (hrest : EndsMisc rest) : ∀ {xs : List Payload} {d : Document}
    {fuel : Nat}, (∀ x ∈ xs, x.IsRemark ∧ x.Retained lookup) → xs.length < fuel →
      takeMisc fuel d (xs.flatMap remarkText ++ rest) =
        .ok (d.plantAll root (xs.map fun x => .node x []), rest)
  | [], d, fuel + 1, _, _ => hrest d fuel
  | x :: xs, d, fuel + 1, hxs, hfuel => by
    obtain ⟨⟨hx, hretained⟩, hxs⟩ := List.forall_mem_cons.1 hxs
    have hplant : d.plant root (.node x []) = (d.push root x).1 := by
      cases x with
      | comment s => rfl
      | instruction target content => rfl
      | _ => exact hx.elim
    rw [List.flatMap_cons, List.append_assoc, takeMisc_remark hx hretained,
      takeMisc_remarks hrest hxs (Nat.lt_of_succ_lt_succ hfuel), List.map_cons,
      Document.plantAll, hplant]

theorem head?_remarkText {x : Payload} (hx : x.IsRemark) : (remarkText x).head? = some '<' := by
  cases x with
  | comment s => rfl
  | instruction target content => rfl
  | _ => exact hx.elim

theorem remarkText_ne_nil {x : Payload} (hx : x.IsRemark) : remarkText x ≠ [] := by
  intro hnil
  have hhead := head?_remarkText hx
  rw [hnil] at hhead
  cases hhead

/-- Only the declaration of a text begins like one. -/
theorem begins_remarkText {x : Payload} (hx : x.IsRemark) (hretained : x.Retained lookup) :
    begins "<?xml " (remarkText x ++ rest) = false := by
  cases x with
  | comment s => rfl
  | instruction target content =>
    rw [remarkText, writeInstruction_eq]
    exact not_begins_declaration hx.1 hretained
  | _ => exact hx.elim

/-- A text that is written has neither a mark nor a declaration in front. -/
theorem skipDeclaration_written {xs : List Payload} {c : Char} (hc : isNameStart c)
    (hxs : ∀ x ∈ xs, x.IsRemark ∧ x.Retained lookup) :
    skipDeclaration (skipMark (xs.flatMap remarkText ++ '<' :: c :: rest)) =
      .ok (xs.flatMap remarkText ++ '<' :: c :: rest) := by
  have hwhole : ∀ cs : List Char, cs.head? = some '<' → begins "<?xml " cs = false →
      skipDeclaration (skipMark cs) = .ok cs := by
    intro cs hhead hbegins
    have hmark : skipMark cs = cs := by
      unfold skipMark
      split
      · cases hhead
      · rfl
    rw [hmark, skipDeclaration, hbegins]
    rfl
  rcases xs with _ | ⟨x, xs⟩
  · refine hwhole _ rfl ?_
    have hquestion : '?' ≠ c := (ne_of_isNameStart hc (by decide)).symm
    have hnone : Text.dropStart? "?xml ".toList (c :: rest) = none :=
      Text.dropStart?_eq_none_of_ne _ _ hquestion
    simpa [begins, Text.dropStart?] using hnone
  · obtain ⟨⟨hx, hretained⟩, -⟩ := List.forall_mem_cons.1 hxs
    rw [List.flatMap_cons, List.append_assoc]
    refine hwhole _ ?_ (begins_remarkText hx hretained)
    rw [List.head?_append, head?_remarkText hx, Option.some_or]

/-- What is written in front of the element of a document is read, and no document type. -/
theorem takeProlog_written {xs : List Payload} {c : Char} (hc : isNameStart c)
    (hxs : ∀ x ∈ xs, x.IsRemark ∧ x.Retained lookup) :
    takeProlog (xs.flatMap remarkText ++ '<' :: c :: rest) =
      .ok (Document.empty.plantAll root (xs.map fun x => .node x []), [], '<' :: c :: rest) := by
  have hlength : xs.length ≤ (xs.flatMap remarkText).length :=
    length_le_flatMap fun x hx => remarkText_ne_nil (hxs x hx).1
  have hmark : '!' ≠ c := (ne_of_isNameStart hc (by decide)).symm
  have hdoctype : begins "<!DOCTYPE" ('<' :: c :: rest) = false := by
    have hnone : Text.dropStart? "!DOCTYPE".toList (c :: rest) = none :=
      Text.dropStart?_eq_none_of_ne _ _ hmark
    simpa [begins, Text.dropStart?] using hnone
  have hskip : skipSpace ('<' :: c :: rest) = '<' :: c :: rest := rfl
  rw [takeProlog, takeMisc_remarks (endsMisc_tag hc rest) hxs
    (by rw [List.length_append]; omega), ok_bind]
  dsimp only
  rw [hskip, hdoctype]
  rfl

end Misc

/-! ### The element -/

namespace Document

variable {d d₀ : Document} {n : NodeId} {e : Element} {fuel : Nat} {declared : List Binding}
  {lookup : Option String → Option String} {rest : List Char}

theorem takeRootElement_openTag {isOpen : Bool} (hdeclared : ∀ b ∈ declared, b.Declarable)
    (hnodup : (declared.map Binding.label).Nodup) (hagrees : Agrees lookup (innerScope declared []))
    (hxml : lookup (some xmlLabel) = some xmlUri) (he : e.Writable lookup) :
    takeRootElement [] d₀ (openTag e declared ++ (tagEnding isOpen ++ rest)) =
      if isOpen then takeContent [] entityLevels (expandEntity [] entityLevels) false
        (rest.length + 1) ((Progress.start d₀).started e declared true) 1 true rest
      else .ok ((Progress.start d₀).started e declared false, rest) := by
  have htag : takeElement [] entityLevels false (.start d₀)
      (tagText e declared ++ (tagEnding isOpen ++ rest)) =
        .ok ((Progress.start d₀).started e declared isOpen, isOpen, rest) :=
    takeElement_tagText rfl hdeclared hnodup hagrees hxml he
  rw [openTag_eq, List.cons_append, takeRootElement, htag, ok_bind]
  cases isOpen <;> rfl

/-- The content of the element and its end tag take the pass to the end of the element. -/
theorem takeContent_element {content : List Char} {ts : List Tree}
    (hspelled : Spelled e.name.label e.name.localPart)
    (hplants : Plants (innerScope declared []) content ts) :
    takeContent [] entityLevels (expandEntity [] entityLevels) false
        ((content ++ ("</".toList ++ (e.name.written.toList ++ '>' :: rest))).length + 1)
        ((Progress.start d₀).started e declared true) 1 true
        (content ++ ("</".toList ++ (e.name.written.toList ++ '>' :: rest))) =
      .ok (.start (d₀.plant root (elementTree e declared [] ts)), rest) := by
  have hplanted := plant_elementTree (.start d₀) e declared ts true rfl
  generalize hq : (Progress.start d₀).started e declared true = q at hplanted ⊢
  have hpath : q.path = [⟨d₀.size, ⟨e.name.label, e.name.localPart⟩,
      innerScope declared []⟩] := by rw [← hq]; rfl
  have hparent : q.parent = d₀.size := by rw [Progress.parent, hpath]
  have hreaches : Reaches [] (expandEntity [] entityLevels)
      ⟨q, 1, content ++ ("</".toList ++ (e.name.written.toList ++ '>' :: rest))⟩
      ⟨{ q with doc := q.doc.plantAll q.parent ts }, 1,
        "</".toList ++ (e.name.written.toList ++ '>' :: rest)⟩ :=
    hplants (by rw [Progress.scope, hpath]) (by rw [← hq]; rfl) (Nat.le_refl 1) rfl
  obtain ⟨fuel', hfuel', heq⟩ := hreaches _ (Nat.lt_succ_self _)
  obtain ⟨fuel', rfl⟩ : ∃ k, fuel' = k + 1 := ⟨fuel' - 1, by omega⟩
  have hend : takeContent [] entityLevels (expandEntity [] entityLevels) false (fuel' + 1)
      { q with doc := q.doc.plantAll q.parent ts } 1 true
      ("</".toList ++ (e.name.written.toList ++ '>' :: rest)) =
        .ok ({ q with doc := q.doc.plantAll q.parent ts, path := [] }, rest) :=
    takeContent_endTag (p := { q with doc := q.doc.plantAll q.parent ts }) hspelled hpath rfl
      (by rw [← hq]; rfl) fuel'
  refine (heq.trans hend).trans ?_
  rw [hparent]
  exact congrArg (fun p => Except.ok (p, rest)) hplanted

/-- The element of a document is read again when it is written. -/
theorem WellFormed.takeRootElement_written (h : d.WellFormed)
    (hnodes : ∀ n : Nat, n < d.size → (d.payload n).Retained (d.lookupUri? n))
    (hover : d.Over root n) (he : d.element? n = some e) (hfuel : d.size - n ≤ fuel + 1) :
    ∃ t : Tree, t.unlabelled = (d.subtree n).unlabelled ∧ ∀ d₀ rest,
      takeRootElement [] d₀ (d.writeNode (fuel + 1) [] n ++ rest) =
        .ok (.start (d₀.plant root t), rest) := by
  have hn : n < d.size := lt_size_of_parent? hover
  have hpayload := element?_eq_some_iff.1 he
  have hproper := h.nodes n hn (h.linked.ne_root_of_over hover)
  have hretained := hnodes n hn
  rw [hpayload] at hproper hretained
  have hwritable : e.Writable (d.lookupUri? n) := ⟨hproper, hretained⟩
  -- Around the outermost element nothing is declared, for the writer nor for the reader.
  have hagrees : Agrees (d.lookupUri? root) [] := fun label hlabel =>
    (lookupUri?_root h.linked (by rw [element?, h.shaped.top]) hlabel).symm
  obtain ⟨hdeclared, hW, hS⟩ := scopes_inside h.linked hover he hwritable hagrees hagrees
  have hopen : ∀ isOpen d₀ rest, takeRootElement [] d₀
      (openTag e (missing [] e.bindings) ++ (tagEnding isOpen ++ rest)) = _ := fun _ _ _ =>
    takeRootElement_openTag (fun b hb => hwritable.binding b (List.mem_of_mem_filter hb))
      (nodup_missing hwritable.retained.nodup) hS (lookupUri?_xmlLabel d n) hwritable
  rw [writeNode_element hpayload hdeclared, elementText]
  by_cases hnone : d.children n = []
  · have hsame : ([] : List Tree).map Tree.unlabelled = (d.forest n).map Tree.unlabelled := by
      rw [forest, hnone, List.map_nil, List.map_nil, List.map_nil]
    refine ⟨elementTree e (missing [] e.bindings) [] [],
      unlabelled_elementTree h.linked hpayload hsame _ _, fun d₀ rest => ?_⟩
    rw [hnone, List.isEmpty_nil, if_pos rfl, List.append_assoc, hopen, if_neg Bool.false_ne_true]
    exact congrArg (fun p => Except.ok (p, rest))
      (plant_elementTree (.start d₀) e (missing [] e.bindings) [] false rfl)
  · have hbelow : ∀ c ∈ d.children n, ∃ t, d.ReadsAs fuel (declarations [] e).scope
        (innerScope (missing [] e.bindings) []) c t := by
      intro c hc
      have hlt := h.linked.mem_children_lt hc
      exact h.exists_readsAs hnodes (h.linked.mem_children_iff.1 hc) hW hS (by omega)
    obtain ⟨ts, hsame, hplants⟩ := h.exists_plants_below hfuel hbelow
    refine ⟨elementTree e (missing [] e.bindings) [] ts,
      unlabelled_elementTree h.linked hpayload hsame _ _, fun d₀ rest => ?_⟩
    rw [if_neg (by simpa using hnone), List.append_assoc, List.append_assoc, List.append_assoc,
      List.append_assoc, List.append_assoc, hopen, if_pos rfl]
    exact takeContent_element hwritable.proper.spelled hplants

/-! ### Documents -/

/-- A document of which nothing gets lost when it is written and read again. -/
structure Retained (d : Document) : Prop where
  /-- There is one element at the top. -/
  single : (d.childElements root).length = 1
  /-- There is no character data next to it. -/
  remarks : ∀ n ∈ d.children root, d.isText n = false
  /-- Nothing of the nodes gets lost. -/
  nodes : ∀ n : Nat, n < d.size → (d.payload n).Retained (d.lookupUri? n)

/-- A node is a comment or processing instruction of which nothing gets lost. -/
structure RemarkAt (d : Document) (m : NodeId) : Prop where
  /-- It is a comment or a processing instruction. -/
  remark : (d.payload m).IsRemark
  /-- Nothing of it gets lost; there are no labels in it. -/
  retained : (d.payload m).Retained fun _ => none
  /-- There is nothing below it. -/
  leaf : d.subtree m = .node (d.payload m) []

theorem WellFormed.remarkAt (h : d.WellFormed) (hd : d.Retained) {m : NodeId}
    (hm : m ∈ d.children root) (hnone : d.element? m = none) : d.RemarkAt m := by
  have hover := h.linked.mem_children_iff.1 hm
  have hlt := lt_size_of_parent? hover
  have hproper := h.nodes m hlt (h.linked.ne_root_of_over hover)
  have htext := hd.remarks m hm
  have hremark : (d.payload m).IsRemark := by
    rcases hpayload : d.payload m with _ | e | s | s | ⟨target, s⟩
    · exact absurd hpayload (h.payload_ne_document hover)
    · rw [element?, hpayload] at hnone
      cases hnone
    · rw [isText, hpayload] at htext
      cases htext
    · rwa [hpayload] at hproper
    · rwa [hpayload] at hproper
  exact ⟨hremark, hremark.retained (hd.nodes m hlt), h.subtree_of_leaf hover hnone⟩

/-- Around the element of a document are comments and processing instructions. -/
theorem WellFormed.exists_around (h : d.WellFormed) (hd : d.Retained) :
    ∃ before n after e, d.children root = before ++ n :: after ∧ d.element? n = some e ∧
      (∀ m ∈ before, d.RemarkAt m) ∧ ∀ m ∈ after, d.RemarkAt m := by
  obtain ⟨n, hn⟩ := List.length_eq_one_iff.1 hd.single
  obtain ⟨before, after, hchildren, hbefore, helement, hafter⟩ := List.filter_eq_cons_iff.1 hn
  obtain ⟨e, he⟩ := Option.isSome_iff_exists.1 helement
  refine ⟨before, n, after, e, hchildren, he, fun m hm => ?_, fun m hm => ?_⟩
  · refine h.remarkAt hd ?_ (by simpa using hbefore m hm)
    rw [hchildren]
    exact List.mem_append_left _ hm
  · refine h.remarkAt hd ?_ (by simpa using List.filter_eq_nil_iff.1 hafter m hm)
    rw [hchildren]
    exact List.mem_append_right _ (List.mem_cons_of_mem n hm)

theorem writeNode_remark (hn : (d.payload n).IsRemark) (W : List Binding) :
    d.writeNode (fuel + 1) W n = remarkText (d.payload n) := by
  rw [writeNode]
  cases hpayload : d.payload n with
  | comment s => simp [remarkText]
  | instruction target content => rfl
  | _ =>
    rw [hpayload] at hn
    exact hn.elim

theorem exists_writeNode_element (hpayload : d.payload n = .element e)
    (hspelled : Spelled e.name.label e.name.localPart) (fuel : Nat) (W : List Binding) :
    ∃ c cs, isNameStart c ∧ d.writeNode (fuel + 1) W n = '<' :: c :: cs := by
  obtain ⟨c, cs, hlist, hc⟩ := hspelled.exists_cons
  have hopen : ∃ cs', openTag e (declarations W e).declared = '<' :: c :: cs' := by
    rw [openTag_eq, tagText, hlist]
    exact ⟨_, rfl⟩
  obtain ⟨cs', hopen⟩ := hopen
  rw [writeNode, hpayload]
  dsimp only
  rw [hopen]
  split
  · exact ⟨c, _, hc, rfl⟩
  · exact ⟨c, _, hc, rfl⟩

/-- Whether there is an element at the top can be told from the tree, whatever its labels. -/
theorem documentElement?_isSome_of_tree {d' : Document} (h : d.Linked) (h' : d'.Linked)
    (hsame : d'.tree.unlabelled = d.tree.unlabelled) (hn : n ∈ d.children root)
    (he : d.element? n = some e) : (d'.documentElement?).isSome := by
  rw [tree, tree, h.subtree_eq, h'.subtree_eq, Tree.unlabelled, Tree.unlabelled,
    Tree.unlabelledAll_eq_map, Tree.unlabelledAll_eq_map] at hsame
  injection hsame with _ hforest
  have hmem : (d.subtree n).unlabelled ∈ (d'.forest root).map Tree.unlabelled := by
    rw [forest, hforest, List.map_map]
    exact List.mem_map_of_mem hn
  obtain ⟨t, ht, hsubtree⟩ := List.mem_map.1 hmem
  obtain ⟨c, hc, rfl⟩ := List.mem_map.1 ht
  rw [h.subtree_eq, h'.subtree_eq, Tree.unlabelled, Tree.unlabelled] at hsubtree
  injection hsubtree with hpayload
  rw [element?_eq_some_iff.1 he] at hpayload
  have helement : (d'.element? c).isSome := by
    rw [element?]
    cases hc : d'.payload c <;> simp_all [Payload.unlabelled]
  have hmem : c ∈ d'.childElements root := List.mem_filter.2 ⟨hc, helement⟩
  obtain ⟨c', cs, hcs⟩ := List.exists_cons_of_ne_nil (List.ne_nil_of_mem hmem)
  rw [documentElement?, hcs]
  rfl

/-- The remarks around the element of a document and the element are written one after the
other. -/
theorem toList_toXml {before after : List NodeId} (hsize : d.size = fuel + 1)
    (hchildren : d.children root = before ++ n :: after)
    (hbefore : ∀ m ∈ before, d.RemarkAt m) (hafter : ∀ m ∈ after, d.RemarkAt m) :
    d.toXml.toList = (before.map d.payload).flatMap remarkText ++
      (d.writeNode (fuel + 1) [] n ++ (after.map d.payload).flatMap remarkText) := by
  have hremarks : ∀ ms : List NodeId, (∀ m ∈ ms, d.RemarkAt m) →
      (ms.flatMap fun m => d.writeNode (fuel + 1) [] m) =
        (ms.map d.payload).flatMap remarkText := by
    intro ms hms
    rw [List.flatMap_map]
    exact List.flatMap_congr fun m hm => writeNode_remark (hms m hm).remark []
  rw [toXml_eq, String.toList_ofList, hchildren, hsize, List.flatMap_append, List.flatMap_cons,
    hremarks before hbefore, hremarks after hafter]

/-- The remarks are trees of their own. -/
theorem unlabelled_remarks {ms : List NodeId} (hms : ∀ m ∈ ms, d.RemarkAt m) :
    ((ms.map d.payload).map (Tree.node · [])).map Tree.unlabelled =
      (ms.map d.subtree).map Tree.unlabelled := by
  have hleaves : (ms.map d.payload).map (Tree.node · []) = ms.map d.subtree := by
    rw [List.map_map]
    exact List.map_congr_left fun m hm => (hms m hm).leaf.symm
  rw [hleaves]

/-- Remarks, an element and remarks are read one after the other. -/
theorem ofChars_written {xs ys : List Payload} {t : Tree} {c : Char} {cs : List Char}
    (hc : isNameStart c) (hxs : ∀ x ∈ xs, x.IsRemark ∧ x.Retained lookup)
    (hys : ∀ y ∈ ys, y.IsRemark ∧ y.Retained lookup)
    (hroot : ∀ d₀ rest, takeRootElement [] d₀ ('<' :: c :: (cs ++ rest)) =
      .ok (.start (d₀.plant root t), rest))
    (hsome : (documentElement? (ofForest (xs.map (Tree.node · []) ++ t :: ys.map (Tree.node · []))
      )).isSome) :
    ofChars (xs.flatMap remarkText ++ '<' :: c :: (cs ++ ys.flatMap remarkText)) =
      .ok (ofForest (xs.map (Tree.node · []) ++ t :: ys.map (Tree.node · []))) := by
  have hlength : ys.length ≤ (ys.flatMap remarkText).length :=
    length_le_flatMap fun y hy => remarkText_ne_nil (hys y hy).1
  have hmisc : ∀ d₀ : Document, takeMisc ((ys.flatMap remarkText).length + 1) d₀
      (ys.flatMap remarkText) = .ok (d₀.plantAll root (ys.map (Tree.node · [])), []) := by
    intro d₀
    have hread := takeMisc_remarks (d := d₀) endsMisc_nil hys (Nat.lt_succ_of_le hlength)
    rwa [List.append_nil] at hread
  have hforest : plantAll (plant (plantAll empty root (xs.map (Tree.node · []))) root t) root
      (ys.map (Tree.node · [])) =
        ofForest (xs.map (Tree.node · []) ++ t :: ys.map (Tree.node · [])) := by
    rw [ofForest, plantAll_append, plantAll]
  rw [ofChars, skipDeclaration_written hc hxs, ok_bind, takeProlog_written hc hxs, ok_bind]
  dsimp only
  rw [hroot, ok_bind]
  dsimp only
  rw [Progress.start, hmisc, ok_bind, hforest]
  obtain ⟨n, hn⟩ := Option.isSome_iff_exists.1 hsome
  simp [hn]

/-- The document of a forest tells the same as a well-formed document if the forest does. -/
theorem WellFormed.unlabelled_tree_ofForest (h : d.WellFormed) {ts : List Tree}
    (hts : ts.map Tree.unlabelled = (d.forest root).map Tree.unlabelled) :
    (ofForest ts).tree.unlabelled = d.tree.unlabelled := by
  have hsettle : (Tree.settleAll [] ts).map Tree.unlabelled =
      (Tree.settleAll [] (d.forest root)).map Tree.unlabelled := by
    rw [Tree.unlabelled_settleAll, Tree.unlabelled_settleAll, Tree.unlabelledAll_eq_map,
      Tree.unlabelledAll_eq_map, hts]
  rw [h.shaped.settleAll_forest h.linked h.rooted] at hsettle
  rw [tree_ofForest, tree, h.linked.subtree_eq, Tree.unlabelled, Tree.unlabelled,
    Tree.unlabelledAll_eq_map, Tree.unlabelledAll_eq_map, hsettle, h.shaped.top, forest]

/-- The text of a well-formed document is read again, and what is read tells the same, if nothing in
the document gets lost. -/
theorem WellFormed.ofChars_toXml (h : d.WellFormed) (hd : d.Retained) :
    ∃ ts : List Tree, ofChars d.toXml.toList = .ok (ofForest ts) ∧
      (ofForest ts).tree.unlabelled = d.tree.unlabelled := by
  obtain ⟨before, n, after, e, hchildren, he, hbefore, hafter⟩ := h.exists_around hd
  obtain ⟨k, hsize⟩ : ∃ k, d.size = k + 1 :=
    Nat.exists_eq_add_one_of_ne_zero (Nat.ne_of_gt h.linked.root_lt)
  have hmem : n ∈ d.children root := by
    rw [hchildren]
    exact List.mem_append_right before List.mem_cons_self
  have hover : d.Over root n := h.linked.mem_children_iff.1 hmem
  have hpayload := element?_eq_some_iff.1 he
  have hproper := h.nodes n (lt_size_of_parent? hover) (h.linked.ne_root_of_over hover)
  rw [hpayload] at hproper
  obtain ⟨t, ht, hroot⟩ := h.takeRootElement_written hd.nodes hover he
    (Nat.le_trans (Nat.sub_le _ _) (Nat.le_of_eq hsize))
  obtain ⟨c, cs, hc, hwritten⟩ := exists_writeNode_element hpayload hproper.spelled k []
  have hread : ∀ ms : List NodeId, (∀ m ∈ ms, d.RemarkAt m) →
      ∀ x ∈ ms.map d.payload, x.IsRemark ∧ x.Retained fun _ => none := by
    intro ms hms x hx
    obtain ⟨m, hm, rfl⟩ := List.mem_map.1 hx
    exact ⟨(hms m hm).remark, (hms m hm).retained⟩
  have hforest : ((before.map d.payload).map (Tree.node · []) ++
      t :: (after.map d.payload).map (Tree.node · [])).map Tree.unlabelled =
        (d.forest root).map Tree.unlabelled := by
    rw [forest, hchildren, List.map_append, List.map_cons, List.map_append, List.map_cons,
      List.map_append, List.map_cons, unlabelled_remarks hbefore, unlabelled_remarks hafter, ht]
  have htree := h.unlabelled_tree_ofForest hforest
  have hsome := documentElement?_isSome_of_tree h.linked (linked_ofForest _) htree hmem he
  refine ⟨_, ?_, htree⟩
  rw [toList_toXml hsize hchildren hbefore hafter]
  simp only [hwritten, List.cons_append] at hroot ⊢
  exact ofChars_written hc (hread before hbefore) (hread after hafter) hroot hsome

end Document

/-- The text of a document that was read is read again, and what is read has the same nodes in the
same order with the same names and values, if nothing in the document gets lost. -/
theorem read_toXml {text : String} {origin : Option String} {d : Document}
    (h : Document.read text origin = .ok d) (hd : d.Retained) (origin' : Option String) :
    ∃ d', Document.read d.toXml origin' = .ok d' ∧ d'.tree.unlabelled = d.tree.unlabelled := by
  obtain ⟨ts, hread, htree⟩ := (Document.WellFormed.of_read h).ofChars_toXml hd
  refine ⟨(Document.ofForest ts).withOrigin origin', by rw [Document.read, hread]; rfl, ?_⟩
  rw [← htree]
  exact congrArg Tree.unlabelled ((Document.linked_ofForest ts).subtree_congr
    ((Document.linked_ofForest ts).withOrigin origin') (fun _ _ => rfl) fun _ _ => rfl)

/-- A note with an instruction in front of it, names in a namespace, and characters that have to be
escaped. -/
def Document.note : Document where
  nodes := #[
    ⟨.document, none, #[1, 2]⟩,
    ⟨.instruction "style" "plain", some 0, #[]⟩,
    ⟨.element
      { name := .plain "note"
        attributes := [⟨.within "urn:n" "n" "by", "A & B\n"⟩]
        bindings := [⟨some "n", "urn:n"⟩] }, some 0, #[3, 4, 5]⟩,
    ⟨.text "1 < 2", some 2, #[]⟩,
    ⟨.comment "end", some 2, #[]⟩,
    ⟨.element ⟨.within "urn:n" "n" "line", [], []⟩, some 2, #[]⟩]
  origin := none

theorem retained_note : Document.note.Retained where
  single := by decide
  remarks := by decide
  nodes n hn := by
    have hkeeps : KeepsValue "A & B\n" ∧ KeepsValue "urn:n" := by
      constructor <;> unfold KeepsValue <;> simp [isMarkupChar]
    match n, hn with
    | 0, _ => trivial
    | 1, _ => exact fun h => absurd h.1 (by decide)
    | 2, _ =>
      exact {
        label := by decide
        attributes := List.forall_mem_singleton.2 ⟨by decide, hkeeps.1⟩
        bindings := List.forall_mem_singleton.2 hkeeps.2
        nodup := by decide
        told :=
          { name := by decide
            labelled := by decide
            attributes := List.forall_mem_singleton.2 fun l hl => by cases hl; decide
            plain := List.forall_mem_singleton.2 fun hnone => by cases hnone } }
    | 3, _ => exact ⟨by decide, by decide⟩
    | 4, _ => trivial
    | 5, _ =>
      exact {
        label := by decide
        attributes := by simp
        bindings := by simp
        nodup := by decide
        told :=
          { name := by decide
            labelled := by decide
            attributes := by simp
            plain := by simp } }
    | n + 6, hn => exact absurd hn (Nat.not_lt.2 (Nat.le_add_left 6 n))

theorem read_toXml_of_note :
    let text := "<?style plain?><note xmlns:n='urn:n' n:by='A &amp; B&#10;'>1 &lt; 2<!--end-->" ++
      "<n:line/></note>"
    Document.read text none = .ok .note ∧ Document.note.Retained ∧
      ∃ d', Document.read Document.note.toXml none = .ok d' ∧
        d'.tree.unlabelled = Document.note.tree.unlabelled := by
  intro text
  have hread : Document.read text none = .ok .note := by decide +kernel
  exact ⟨hread, retained_note, read_toXml hread retained_note none⟩

/-- An element with one value. -/
def Document.single (value : String) : Document :=
  (Document.empty.appendElement root (.plain "a")).1.setAttribute 1 (.plain "b") value

/-- A tab in a value is written as it is and read as a space: what is read from the text of a
document need not tell the same. -/
theorem tab_lost_in_value :
    ∃ d d', Document.read "<a b='&#9;'/>" none = .ok d ∧ Document.read d.toXml none = .ok d' ∧
      d'.tree.unlabelled ≠ d.tree.unlabelled := by
  refine ⟨.single "\t", .single " ", by decide +kernel, by decide +kernel, fun h => ?_⟩
  have hvalue := congrArg (fun t => t.documentElement?.bind fun e => e.attribute? "b") h
  exact absurd hvalue (by decide)

end MarkupRules.Markup
