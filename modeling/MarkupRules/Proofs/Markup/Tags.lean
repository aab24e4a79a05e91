/-
# Tags that are written are read

A start tag is written as the name of the element, the declarations that are missing and the
attributes. Reading it collects the same declarations and attributes and resolves the labels: if
every name has the namespace of its label, the element that is added has the same names and values
as the one that was written.

Key definitions: `KeepsValue`, `Element.Proper`, `Element.Retained`, `Element.Writable`,
`Element.readIn`.

Key theorems: `takeTag_bindings`, `takeTag_attributes`, `resolveAttributes_eq`,
`startElement_written`, `takeElement_tagText`.
-/
import MarkupRules.Proofs.Markup.Pieces
import MarkupRules.Proofs.Markup.Scopes
import MarkupRules.Proofs.Markup.Unlabelled

namespace MarkupRules.Markup

/-! ### What can be written -/

/-- A value that is read as it was written: tabs and carriage returns are read as spaces, and other
control characters not at all. -/
def KeepsValue (s : String) : Prop :=
  ∀ c ∈ s.toList, isMarkupChar c ∧ c ≠ '\t' ∧ c ≠ '\r'

/-- A binding that can be declared. -/
structure Binding.Declarable (b : Binding) : Prop extends b.Proper where
  /-- The namespace is read as it was written. -/
  keeps : KeepsValue b.uri

/-- An attribute with a proper name. -/
structure Attribute.Proper (a : Attribute) : Prop where
  /-- The parts of its name are parts of names. -/
  spelled : Spelled a.name.label a.name.localPart
  /-- It is no declaration of a default. -/
  localPart : a.name.localPart ≠ xmlnsLabel

/-- An attribute that can be written. -/
structure Attribute.Writable (a : Attribute) : Prop extends a.Proper where
  /-- It is no declaration. -/
  label : a.name.label ≠ some xmlnsLabel
  /-- The value is read as it was written. -/
  keeps : KeepsValue a.value

/-- An element with a proper name, proper attributes and proper bindings. -/
structure Element.Proper (e : Element) : Prop where
  /-- The parts of its name are parts of names. -/
  spelled : Spelled e.name.label e.name.localPart
  /-- The label of markup itself is not for elements. -/
  label : e.name.label ≠ some xmlLabel
  /-- Its attributes. -/
  attributes : ∀ a ∈ e.attributes, a.Proper
  /-- No two of them have one name. -/
  distinct : (expandedNames e.attributes).Nodup
  /-- Its bindings. -/
  bindings : ∀ b ∈ e.bindings, b.Proper

/-- An element of which nothing gets lost when it is written and read again. Labels are looked up
in the given way. -/
structure Element.Retained (lookup : Option String → Option String) (e : Element) : Prop where
  /-- The label of declarations is not that of its name. -/
  label : e.name.label ≠ some xmlnsLabel
  /-- The label of declarations is not that of an attribute, and values are read as written. -/
  attributes : ∀ a ∈ e.attributes, a.name.label ≠ some xmlnsLabel ∧ KeepsValue a.value
  /-- Namespaces are read as written. -/
  bindings : ∀ b ∈ e.bindings, KeepsValue b.uri
  /-- No label is bound twice. -/
  nodup : (e.bindings.map Binding.label).Nodup
  /-- Names have the namespaces of their labels. -/
  told : e.Told lookup

/-- An element that can be written where labels are looked up in the given way. -/
structure Element.Writable (lookup : Option String → Option String) (e : Element) : Prop where
  /-- Its names are proper ones. -/
  proper : e.Proper
  /-- Nothing of it gets lost. -/
  retained : e.Retained lookup

section Writable

variable {lookup : Option String → Option String} {e : Element}

theorem Element.Writable.attribute (h : e.Writable lookup) : ∀ a ∈ e.attributes, a.Writable :=
  fun a ha =>
    have ⟨hlabel, hkeeps⟩ := h.retained.attributes a ha
    ⟨h.proper.attributes a ha, hlabel, hkeeps⟩

theorem Element.Writable.binding (h : e.Writable lookup) : ∀ b ∈ e.bindings, b.Declarable :=
  fun b hb => ⟨h.proper.bindings b hb, h.retained.bindings b hb⟩

end Writable

/-! ### Names and values in a tag -/

section Tag

variable {entities : List Entity} {levels fuel references : Nat} {rest : List Char}

/-- A pair in a start tag is added to what was read of it. -/
theorem takeTag_writePair {tag tag' : TagContent} {name : Name} {value : String}
    (hname : Spelled name.label name.localPart) (hvalue : KeepsValue value)
    (hadd : tag.add ⟨name.label, name.localPart⟩ value = .ok tag') :
    takeTag entities levels false (fuel + 1) references tag
        (writePair name.written.toList (escapeValue value) ++ rest) =
      takeTag entities levels false fuel references tag' rest := by
  obtain ⟨c, cs, hlist, hc⟩ := hname.exists_cons
  have hpair : takePair (name.written.toList ++ '=' :: '"' :: (escapeValue value ++ '"' :: rest)) =
      .ok ((⟨name.label, name.localPart⟩, escapeValue value), rest) :=
    takePair_append hname fun d hd => (hvalue d hd).1
  have hnormal : normalizeValue entities (expandValue entities levels) false
      ((escapeValue value).length + 1) references (escapeValue value) =
        .ok (value.toList, references) :=
    normalizeValue_escapeValueChars (fun d hd => (hvalue d hd).2) (Nat.lt_succ_self _)
  have hwritten : writePair name.written.toList (escapeValue value) ++ rest =
      ' ' :: c :: (cs ++ '=' :: '"' :: (escapeValue value ++ '"' :: rest)) := by
    simp [writePair, hlist]
  have hskip : skipSpace (' ' :: c :: (cs ++ '=' :: '"' :: (escapeValue value ++ '"' :: rest))) =
      c :: (cs ++ '=' :: '"' :: (escapeValue value ++ '"' :: rest)) := by
    have hspace : Text.isSpace ' ' = true := by decide
    simp [skipSpace, hspace, isSpace_eq_false_of_isNameStart hc]
  have hspace : (!Text.isSpace ' ') = false := by decide
  rw [hlist, List.cons_append] at hpair
  rw [hwritten, takeTag, hskip]
  split
  · next heq => exact absurd (List.cons.inj heq).1 (ne_of_isNameStart hc (by decide))
  · next heq => exact absurd (List.cons.inj heq).1 (ne_of_isNameStart hc (by decide))
  · next heq => cases heq
  · next heq =>
    cases heq
    rw [hspace, if_neg Bool.false_ne_true, hpair, ok_bind]
    dsimp only
    rw [hnormal, ok_bind]
    dsimp only
    rw [String.ofList_toList, hadd, ok_bind]

/-- The name of the attribute that declares a binding. -/
def Binding.declaredAs (b : Binding) : Name :=
  match b.label with
  | some l => ⟨none, some xmlnsLabel, l⟩
  | none => ⟨none, none, xmlnsLabel⟩

theorem writeBinding_eq (b : Binding) :
    writeBinding b = writePair b.declaredAs.written.toList (escapeValue b.uri) := by
  rcases hlabel : b.label with _ | l
  · simp [writeBinding, Binding.declaredAs, Name.written, hlabel, xmlnsLabel]
  · simp [writeBinding, Binding.declaredAs, Name.written, hlabel, xmlnsLabel]

theorem isPart_xmlnsLabel : IsPart xmlnsLabel := by decide

theorem spelled_declaredAs {b : Binding} (h : b.Declarable) :
    Spelled b.declaredAs.label b.declaredAs.localPart := by
  rcases hlabel : b.label with _ | l
  · simp only [Binding.declaredAs, hlabel]
    exact ⟨isPart_xmlnsLabel, by simp⟩
  · simp only [Binding.declaredAs, hlabel]
    exact ⟨h.spelled l hlabel, by simpa using isPart_xmlnsLabel⟩

theorem add_declaredAs {b : Binding} (h : b.Declarable) {done : List Binding}
    {attributes : List (Qualified × String)} (hnew : ∀ o ∈ done, o.label ≠ b.label) :
    TagContent.add ⟨done, attributes⟩ ⟨b.declaredAs.label, b.declaredAs.localPart⟩ b.uri =
      .ok ⟨done ++ [b], attributes⟩ := by
  rcases b with ⟨_ | l, uri⟩
  · have huri := h.uri
    simp [Binding.declaredAs, TagContent.add, huri.1, huri.2]
  · have huri := h.uri
    have hl : l ≠ xmlLabel := fun heq => h.label (congrArg some heq)
    simp only [Binding.declaredAs, TagContent.add, huri.1, huri.2, hl, if_true, if_false, ne_eq,
      not_true_eq_false]
    refine if_neg fun hany => ?_
    obtain ⟨o, ho, hlabel⟩ := List.any_eq_true.1 hany
    exact hnew o ho (of_decide_eq_true hlabel)

/-- The declarations of a start tag are its bindings. -/
theorem takeTag_bindings {attributes : List (Qualified × String)} : ∀ {bs done : List Binding},
    (∀ b ∈ bs, b.Declarable) → ((done ++ bs).map Binding.label).Nodup →
    takeTag entities levels false (bs.length + fuel) references ⟨done, attributes⟩
        (bs.flatMap writeBinding ++ rest) =
      takeTag entities levels false fuel references ⟨done ++ bs, attributes⟩ rest
  | [], done, _, _ => by simp
  | b :: bs, done, hbs, hnodup => by
    obtain ⟨hb, hbs⟩ := List.forall_mem_cons.1 hbs
    have hnew : ∀ o ∈ done, o.label ≠ b.label := by
      intro o ho
      rw [List.map_append, List.map_cons] at hnodup
      exact (List.nodup_append.1 hnodup).2.2 _ (List.mem_map_of_mem ho) _ List.mem_cons_self
    have hmore : ((done ++ [b] ++ bs).map Binding.label).Nodup := by
      rwa [List.append_assoc, List.singleton_append]
    rw [List.flatMap_cons, List.append_assoc, writeBinding_eq, List.length_cons,
      Nat.add_right_comm, takeTag_writePair (spelled_declaredAs hb) hb.keeps
        (add_declaredAs hb hnew), takeTag_bindings hbs hmore, List.append_assoc,
      List.singleton_append]

/-- An attribute as it is written. -/
def Attribute.asWritten (a : Attribute) : Qualified × String :=
  (⟨a.name.label, a.name.localPart⟩, a.value)

/-- The attributes of a start tag are those of its element. -/
theorem takeTag_attributes {bindings : List Binding} : ∀ {as : List Attribute}
    {done : List (Qualified × String)}, (∀ a ∈ as, a.Writable) →
    takeTag entities levels false (as.length + fuel) references ⟨bindings, done⟩
        (as.flatMap writeAttribute ++ rest) =
      takeTag entities levels false fuel references
        ⟨bindings, done ++ as.map Attribute.asWritten⟩ rest
  | [], done, _ => by simp
  | a :: as, done, has => by
    obtain ⟨ha, has⟩ := List.forall_mem_cons.1 has
    have hadd : TagContent.add ⟨bindings, done⟩ ⟨a.name.label, a.name.localPart⟩ a.value =
        .ok ⟨bindings, done ++ [a.asWritten]⟩ := by
      simp [TagContent.add, ha.label, ha.localPart, Attribute.asWritten]
    rw [List.flatMap_cons, List.append_assoc, writeAttribute, List.length_cons,
      Nat.add_right_comm, takeTag_writePair ha.spelled ha.keeps hadd, takeTag_attributes has,
      List.map_cons, List.append_assoc, List.singleton_append]

/-! ### Names in a tag resolved -/

variable {lookup : Option String → Option String} {scope : List Binding}

/-- The namespace that the reader finds for the label of an attribute. -/
def attributeUri (scope : List Binding) (label : Option String) :
    Except Fault (Option String) :=
  match label with
  | none => .ok none
  | some label => if label = xmlLabel then .ok (some xmlUri) else uriOf scope (some label)

theorem resolveAttributes_cons (scope : List Binding) (done : List Attribute) (name : Qualified)
    (value : String) (rest : List (Qualified × String)) :
    resolveAttributes scope done ((name, value) :: rest) =
      (attributeUri scope name.label >>= fun uri =>
        if done.any fun a => a.name.same (nameIn scope uri name.localPart) then
          .error (.repeatedAttribute name.localPart)
        else
          resolveAttributes scope (done ++ [⟨nameIn scope uri name.localPart, value⟩]) rest) := by
  rw [resolveAttributes]
  rcases name with ⟨_ | label, localPart⟩
  · rfl
  · by_cases hxml : label = xmlLabel <;> simp [attributeUri, hxml]

theorem attributeUri_eq (hscope : Agrees lookup scope) (hxml : lookup (some xmlLabel) = some xmlUri)
    {a : Attribute} (hlabelled : ∀ l, a.name.label = some l →
      a.name.uri = lookup (some l) ∧ a.name.uri.isSome)
    (hplain : a.name.label = none → a.name.uri = none) :
    attributeUri scope a.name.label = .ok a.name.uri := by
  unfold attributeUri
  split
  · next hlabel => rw [hplain hlabel]
  · next l hlabel =>
    obtain ⟨huri, hsome⟩ := hlabelled l hlabel
    split
    · next heq => rw [huri, heq, hxml]
    · next hne =>
      refine uriOf_eq_ok ?_ fun _ => hsome
      rw [hscope _ fun heq => hne (Option.some.inj heq), huri]

/-- Attributes of which no two have one name are resolved to the names that their labels say. -/
theorem resolveAttributes_eq (hscope : Agrees lookup scope)
    (hxml : lookup (some xmlLabel) = some xmlUri) : ∀ {as : List Attribute}
    {done : List Attribute},
    (∀ a ∈ as, ∀ l, a.name.label = some l → a.name.uri = lookup (some l) ∧ a.name.uri.isSome) →
    (∀ a ∈ as, a.name.label = none → a.name.uri = none) →
    (expandedNames (done ++ as)).Nodup →
    resolveAttributes scope done (as.map Attribute.asWritten) =
      .ok (done ++ as.map fun a => ⟨nameIn scope a.name.uri a.name.localPart, a.value⟩)
  | [], done, _, _, _ => by simp [resolveAttributes]
  | a :: as, done, hlabelled, hplain, hnodup => by
    obtain ⟨ha, hlabelled⟩ := List.forall_mem_cons.1 hlabelled
    obtain ⟨ha', hplain⟩ := List.forall_mem_cons.1 hplain
    have hnew : ∀ o ∈ done,
        o.name.same (nameIn scope a.name.uri a.name.localPart) = false := by
      intro o ho
      rw [expandedNames, List.map_append, List.map_cons] at hnodup
      have hne := (List.nodup_append.1 hnodup).2.2 _ (List.mem_map_of_mem ho) _
        List.mem_cons_self
      rw [Bool.eq_false_iff]
      intro hsame
      have hboth : o.name.localPart = a.name.localPart ∧ o.name.uri = a.name.uri := by
        simpa [Name.same, nameIn] using hsame
      exact hne (by rw [hboth.1, hboth.2])
    have hmore : (expandedNames
        (done ++ [⟨nameIn scope a.name.uri a.name.localPart, a.value⟩] ++ as)).Nodup := by
      simpa [expandedNames, nameIn] using hnodup
    have hany : (done.any fun o => o.name.same (nameIn scope a.name.uri a.name.localPart)) = false :=
      List.any_eq_false.2 fun o ho => by simp [hnew o ho]
    rw [List.map_cons, Attribute.asWritten, resolveAttributes_cons,
      attributeUri_eq hscope hxml ha ha', ok_bind, hany, if_neg Bool.false_ne_true,
      resolveAttributes_eq hscope hxml hlabelled hplain hmore]
    simp

/-! ### Start tags -/

/-- The element that is read where some bindings are declared within others. -/
def Element.readIn (e : Element) (declared outer : List Binding) : Element where
  name := nameIn (innerScope declared outer) e.name.uri e.name.localPart
  attributes := e.attributes.map fun a =>
    ⟨nameIn (innerScope declared outer) a.name.uri a.name.localPart, a.value⟩
  bindings := (innerScope declared outer).filter fun b => !outer.contains b

theorem unlabelled_readIn (e : Element) (declared outer : List Binding) :
    (e.readIn declared outer).unlabelled = e.unlabelled := by
  simp [Element.readIn, Element.unlabelled, Name.unlabelled, nameIn]

/-- The pass behind the start tag of an element. -/
def Progress.started (p : Progress) (e : Element) (declared : List Binding) (isOpen : Bool) :
    Progress :=
  { p with
    doc := (p.doc.push p.parent (.element (e.readIn declared p.scope))).1
    path :=
      if isOpen then
        ⟨p.doc.size, ⟨e.name.label, e.name.localPart⟩, innerScope declared p.scope⟩ :: p.path
      else p.path
    pending := .empty }

theorem agrees_innerScope {around : Option String → Option String} {scope outer : List Binding}
    {e : Element} (hscope : Agrees around scope) (houter : Agrees around outer)
    (hnodup : (e.bindings.map Binding.label).Nodup)
    (hinside : ∀ label, label ≠ some xmlLabel →
      lookup label = (Document.boundUri? e.bindings label).or (around label)) :
    Agrees lookup (innerScope (missing scope e.bindings) outer) := by
  have hagrees := agrees_scopeWithin hscope houter hnodup hinside
  unfold innerScope
  split
  · next hnone =>
    intro label hlabel
    rw [← hagrees label hlabel, boundUri?_scopeWithin, hnone]
    rfl
  · exact hagrees

theorem startElement_written {p : Progress} {declared : List Binding} {e : Element} {isOpen : Bool}
    (hagrees : Agrees lookup (innerScope declared p.scope))
    (hxml : lookup (some xmlLabel) = some xmlUri) (he : e.Writable lookup) :
    startElement p ⟨e.name.label, e.name.localPart⟩
        ⟨declared, e.attributes.map Attribute.asWritten⟩ isOpen =
      .ok (p.started e declared isOpen) := by
  have hattributes : resolveAttributes (innerScope declared p.scope) []
      (e.attributes.map Attribute.asWritten) = .ok (e.readIn declared p.scope).attributes :=
    resolveAttributes_eq hagrees hxml he.retained.told.attributes he.retained.told.plain
      he.proper.distinct
  have huri : uriOf (innerScope declared p.scope) e.name.label = .ok e.name.uri := by
    refine uriOf_eq_ok ?_ he.retained.told.labelled
    rw [hagrees _ he.proper.label, he.retained.told.name]
  unfold startElement
  dsimp only
  rw [← innerScope, hattributes, ok_bind, huri, ok_bind]
  rfl

/-- What is written between the opening bracket of a start tag and its end. -/
def tagText (e : Element) (declared : List Binding) : List Char :=
  e.name.written.toList ++ (declared.flatMap writeBinding ++ e.attributes.flatMap writeAttribute)

theorem openTag_eq (e : Element) (declared : List Binding) :
    openTag e declared = '<' :: tagText e declared := by
  simp [openTag, tagText]

/-- Behind the name of a tag comes no character of a name. -/
theorem endsName_tagText {bs : List Binding} {as : List Attribute} {cs : List Char}
    (hcs : ∀ c ∈ cs.head?, isNameChar c = false) :
    ∀ c ∈ (bs.flatMap writeBinding ++ as.flatMap writeAttribute ++ cs).head?,
      isNameChar c = false := by
  have hspace : isNameChar ' ' = false := by decide
  rcases bs with _ | ⟨b, bs⟩
  · rcases as with _ | ⟨a, as⟩
    · exact hcs
    · simpa [writeAttribute, writePair] using hspace
  · simpa [writeBinding_eq, writePair] using hspace

theorem length_le_flatMap {α : Type} {f : α → List Char} {xs : List α}
    (hf : ∀ x ∈ xs, f x ≠ []) : xs.length ≤ (xs.flatMap f).length := by
  induction xs with
  | nil => exact Nat.le_refl 0
  | cons x xs ih =>
    obtain ⟨hx, hxs⟩ := List.forall_mem_cons.1 hf
    have hpos : 0 < (f x).length := List.length_pos_of_ne_nil hx
    have hrest := ih hxs
    rw [List.flatMap_cons, List.length_cons, List.length_append]
    omega

/-- How a start tag ends. -/
def tagEnding (isOpen : Bool) : List Char :=
  if isOpen then ['>'] else ['/', '>']

theorem takeTag_ending (isOpen : Bool) (tag : TagContent) :
    takeTag entities levels false (fuel + 1) references tag (tagEnding isOpen ++ rest) =
      .ok (tag, if isOpen then .opened else .closed, references, rest) := by
  cases isOpen <;> rfl

/-- A start tag that was written is read to its end. -/
theorem takeElement_tagText {p : Progress} {declared : List Binding} {e : Element} {isOpen : Bool}
    (hpending : p.pending = .empty) (hdeclared : ∀ b ∈ declared, b.Declarable)
    (hnodup : (declared.map Binding.label).Nodup)
    (hagrees : Agrees lookup (innerScope declared p.scope))
    (hxml : lookup (some xmlLabel) = some xmlUri) (he : e.Writable lookup) :
    takeElement entities levels false p (tagText e declared ++ (tagEnding isOpen ++ rest)) =
      .ok (p.started e declared isOpen, isOpen, rest) := by
  have hending : ∀ c ∈ (tagEnding isOpen ++ rest).head?, isNameChar c = false := by
    intro c hc
    cases isOpen <;> cases hc <;> decide
  have hbindings : declared.length ≤ (declared.flatMap writeBinding).length :=
    length_le_flatMap fun b _ => by simp [writeBinding_eq, writePair]
  have hattributes : e.attributes.length ≤ (e.attributes.flatMap writeAttribute).length :=
    length_le_flatMap fun a _ => by simp [writeAttribute, writePair]
  -- The fuel is the length of the text, and every binding and attribute takes a character.
  obtain ⟨fuel, hfuel⟩ : ∃ fuel, (declared.flatMap writeBinding ++
      e.attributes.flatMap writeAttribute ++ (tagEnding isOpen ++ rest)).length + 1 =
        declared.length + (e.attributes.length + (fuel + 1)) := by
    refine ⟨(declared.flatMap writeBinding).length - declared.length +
      ((e.attributes.flatMap writeAttribute).length - e.attributes.length) +
      (tagEnding isOpen ++ rest).length, ?_⟩
    simp only [List.length_append]
    omega
  have htag : takeTag entities levels false (declared.length + (e.attributes.length + (fuel + 1)))
      p.references p.pending (declared.flatMap writeBinding ++
        (e.attributes.flatMap writeAttribute ++ (tagEnding isOpen ++ rest))) =
      .ok (⟨declared, e.attributes.map Attribute.asWritten⟩,
        if isOpen then .opened else .closed, p.references, rest) := by
    have hnone : (([] ++ declared).map Binding.label).Nodup := hnodup
    rw [hpending, TagContent.empty, takeTag_bindings hdeclared hnone,
      takeTag_attributes he.attribute, takeTag_ending]
    rfl
  rw [takeElement, tagText, List.append_assoc, takeQualified_written he.proper.spelled
    (endsName_tagText hending), ok_bind]
  dsimp only
  rw [if_neg he.retained.label, hfuel, List.append_assoc, htag, ok_bind]
  have hstart : startElement { p with references := p.references } ⟨e.name.label, e.name.localPart⟩
      ⟨declared, e.attributes.map Attribute.asWritten⟩ isOpen = .ok (p.started e declared isOpen) :=
    startElement_written hagrees hxml he
  cases isOpen with
  | true => simp [hstart, ok_bind]
  | false => simp [hstart, ok_bind]

end Tag

end MarkupRules.Markup
