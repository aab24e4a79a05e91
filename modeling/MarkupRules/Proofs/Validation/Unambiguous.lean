/-
# Whether locations tell places apart

A step of a location shows the name of an element as it is written, and its number among the
siblings of one expanded name. So two siblings are shown alike if they are written alike, have
different namespaces and come to the same number, and two attributes if they are written alike.
These are the only ways in which two places of a document that was read have one location: no name
holds a slash, so a location is taken apart at its last slash, into the location of what stands
above and the last step.

Key definitions: `TellsApart`, `Shown`.

Key theorems: `split_last_inj`, `eq_or_sameKind_of_stepLabel`, `eq_of_siblingNumber`,
`nodeLocation_inj`, `TellsApart.of_labels`, `locations_differ_iff`.
-/
import MarkupRules.Proofs.Markup.WellFormed
import MarkupRules.Proofs.Validation.Locations

namespace MarkupRules.Validation

open Markup (Attribute Document Element Name NodeId Payload Spelled expandedNames isNameChar)
open Markup.Document (root)
open Query (Place)

/-! ### Texts that are taken apart -/

/-- A list is split at the first occurrence of an item in one way only. -/
theorem split_inj {α : Type} {c : α} : ∀ {xs ys xs' ys' : List α}, c ∉ xs → c ∉ xs' →
    xs ++ c :: ys = xs' ++ c :: ys' → xs = xs' ∧ ys = ys'
  | [], _, [], _, _, _, h => ⟨rfl, (List.cons.inj h).2⟩
  | [], _, x' :: xs', _, _, hxs', h => by
    have hx' : c = x' := (List.cons.inj h).1
    exact absurd (hx' ▸ List.mem_cons_self) hxs'
  | x :: xs, _, [], _, hxs, _, h => by
    have hx : x = c := (List.cons.inj h).1
    exact absurd (hx ▸ List.mem_cons_self) hxs
  | x :: xs, _, x' :: xs', _, hxs, hxs', h => by
    obtain ⟨hhead, htail⟩ := List.cons.inj h
    obtain ⟨hfront, hrest⟩ := split_inj (fun hc => hxs (List.mem_cons_of_mem x hc))
      (fun hc => hxs' (List.mem_cons_of_mem x' hc)) htail
    exact ⟨List.cons_eq_cons.2 ⟨hhead, hfront⟩, hrest⟩

/-- A list is split at the last occurrence of an item in one way only. -/
theorem split_last_inj {α : Type} {c : α} {xs ys xs' ys' : List α} (hys : c ∉ ys) (hys' : c ∉ ys')
    (h : xs ++ c :: ys = xs' ++ c :: ys') : xs = xs' ∧ ys = ys' := by
  have hreverse : ys.reverse ++ c :: xs.reverse = ys'.reverse ++ c :: xs'.reverse := by
    simpa using congrArg List.reverse h
  obtain ⟨hy, hx⟩ := split_inj (by simpa using hys) (by simpa using hys') hreverse
  exact ⟨List.reverse_injective hx, List.reverse_injective hy⟩

theorem toString_inj {k l : Nat} (h : toString k = toString l) : k = l := by
  rw [Nat.toString_eq_ofList_toDigits, Nat.toString_eq_ofList_toDigits] at h
  have hdigits := congrArg String.toList h
  rw [String.toList_ofList, String.toList_ofList] at hdigits
  rw [← Decimal.readNat_toDigits k, hdigits, Decimal.readNat_toDigits]

theorem isDigit_of_mem_toString {k : Nat} {c : Char} (hc : c ∈ (toString k).toList) :
    c.isDigit := by
  rw [Nat.toString_eq_ofList_toDigits, String.toList_ofList] at hc
  exact Nat.isDigit_of_mem_toDigits (by decide) (Nat.le_refl 10) hc

/-! ### Steps -/

/-- Nodes that are counted together are counted together with the same nodes. -/
theorem sameKind_congr {x y z : Payload} (h : sameKind x y) : sameKind x z = sameKind y z := by
  cases x <;> cases y <;> simp only [sameKind, Bool.false_eq_true] at h
  case element e f =>
    obtain ⟨hlocal, huri⟩ : e.name.localPart = f.name.localPart ∧ e.name.uri = f.name.uri := by
      simpa [Name.same] using h
    cases z <;> simp [sameKind, Name.same, hlocal, huri]
  all_goals cases z <;> rfl

/-- What a step is called holds characters of names, and parentheses. -/
theorem isNameChar_of_mem_stepLabel {x : Payload} (hx : x.Proper) {c : Char}
    (hc : c ∈ (stepLabel x).toList) : isNameChar c ∨ c = '(' ∨ c = ')' := by
  have hletter : ∀ {s : String}, (∀ c ∈ s.toList, c.isAlpha ∨ c = '-' ∨ c = '(' ∨ c = ')') →
      c ∈ s.toList → isNameChar c ∨ c = '(' ∨ c = ')' := by
    intro s hs hc
    rcases hs c hc with halpha | rfl | hparenthesis
    · exact .inl (by simp [isNameChar, Markup.isNameStart, halpha])
    · exact .inl (by decide)
    · exact .inr hparenthesis
  cases x with
  | document => exact hx.elim
  | element e => exact .inl (Markup.isNameChar_of_mem_written hx.spelled hc)
  | text s => exact hletter (by simp) (show c ∈ "text()".toList from hc)
  | comment s => exact hletter (by simp) (show c ∈ "comment()".toList from hc)
  | instruction target content =>
    exact hletter (by simp) (show c ∈ "processing-instruction()".toList from hc)

/-- Steps of one name lead to elements that are written alike, or to nodes of one other kind. -/
theorem eq_or_sameKind_of_stepLabel {x y : Payload} (hx : x.Proper) (hy : y.Proper)
    (h : stepLabel x = stepLabel y) :
    (∃ e f, x = .element e ∧ y = .element f ∧ e.name.written = f.name.written) ∨ sameKind x y := by
  have hname : ∀ {e : Element} {s : String}, e.Proper → '(' ∈ s.toList → e.name.written ≠ s := by
    rintro e s he hs rfl
    exact absurd (Markup.isNameChar_of_mem_written he.spelled hs) (by decide)
  cases x <;> cases y
  case document.document | text.text | comment.comment | instruction.instruction => exact .inr rfl
  case element.element e f => exact .inl ⟨e, f, rfl, rfl, h⟩
  case document.element | document.text | document.comment | document.instruction => exact hx.elim
  case element.document | text.document | comment.document | instruction.document => exact hy.elim
  case element.text | element.comment | element.instruction =>
    exact absurd h (hname hx (by simp [stepLabel]))
  case text.element | comment.element | instruction.element =>
    exact absurd h.symm (hname hy (by simp [stepLabel]))
  all_goals exact absurd h (by simp [stepLabel])

section Steps

variable {d : Document} {parent other n m : NodeId}

theorem toList_stepTo (d : Document) (parent n : NodeId) : (stepTo d parent n).toList =
    (stepLabel (d.payload n)).toList ++
      '[' :: ((toString (siblingNumber d parent n)).toList ++ [']']) := by
  simp [stepTo]

theorem isNameChar_of_mem_stepTo (hn : (d.payload n).Proper) {c : Char}
    (hc : c ∈ (stepTo d parent n).toList) : isNameChar c ∨ c ∈ ['(', ')', '[', ']'] := by
  rw [toList_stepTo, List.mem_append, List.mem_cons, List.mem_append, List.mem_singleton] at hc
  rcases hc with hc | rfl | hc | rfl
  · rcases isNameChar_of_mem_stepLabel hn hc with hname | rfl | rfl
    · exact .inl hname
    · exact .inr (by decide)
    · exact .inr (by decide)
  · exact .inr (by decide)
  · exact .inl (by simp [isNameChar, isDigit_of_mem_toString hc])
  · exact .inr (by decide)

theorem slash_notMem_stepTo (hn : (d.payload n).Proper) : '/' ∉ (stepTo d parent n).toList :=
  fun hc => absurd (isNameChar_of_mem_stepTo hn hc) (by decide)

theorem at_notMem_stepTo (hn : (d.payload n).Proper) : '@' ∉ (stepTo d parent n).toList :=
  fun hc => absurd (isNameChar_of_mem_stepTo hn hc) (by decide)

/-- A step shows what it is called and its number. -/
theorem stepTo_inj (hn : (d.payload n).Proper) (hm : (d.payload m).Proper)
    (h : stepTo d parent n = stepTo d other m) :
    stepLabel (d.payload n) = stepLabel (d.payload m) ∧
      siblingNumber d parent n = siblingNumber d other m := by
  have hbracket : ∀ {k}, (d.payload k).Proper → '[' ∉ (stepLabel (d.payload k)).toList :=
    fun hk hc => absurd (isNameChar_of_mem_stepLabel hk hc) (by decide)
  have hlist := congrArg String.toList h
  rw [toList_stepTo, toList_stepTo] at hlist
  obtain ⟨hlabel, hnumber⟩ := split_inj (hbracket hn) (hbracket hm) hlist
  exact ⟨String.toList_injective hlabel,
    toString_inj (String.toList_injective (List.append_cancel_right hnumber))⟩

/-- Siblings that are counted together are told apart by their numbers. -/
theorem eq_of_siblingNumber (h : d.Linked) (hn : d.Over parent n) (hm : d.Over parent m)
    (hsame : sameKind (d.payload n) (d.payload m))
    (hnumber : siblingNumber d parent n = siblingNumber d parent m) : n = m := by
  obtain ⟨k, hk, hat⟩ := alike_getElem? h hn
  obtain ⟨l, hl, hat'⟩ := alike_getElem? h hm
  obtain rfl : k = l := by omega
  have halike : alike d parent n = alike d parent m :=
    List.filter_congr fun c _ => sameKind_congr hsame
  exact Option.some.inj (hat.symm.trans (halike ▸ hat'))

end Steps

/-! ### Locations -/

/-- A document in which siblings that are written alike and have one number have one expanded name,
and attributes of an element are not written alike. -/
structure TellsApart (d : Document) : Prop where
  /-- Elements below one node. -/
  elements : ∀ parent, ∀ n ∈ d.children parent, ∀ m ∈ d.children parent, ∀ e ∈ d.element? n,
    ∀ f ∈ d.element? m, e.name.written = f.name.written →
    siblingNumber d parent n = siblingNumber d parent m → e.name.same f.name
  /-- Attributes of one element. -/
  attributes : ∀ n, ((d.attributes n).map fun a => a.name.written).Nodup

/-- A place is shown by what stands above it and a last step. -/
inductive Shown (d : Document) : Place → List Char → List Char → Prop where
  /-- The document node is shown by a slash. -/
  | root : Shown d (.node root) [] []
  /-- A child is shown by the step from its parent. -/
  | child {parent n : NodeId} (h : d.Over parent n) :
    Shown d (.node n) (nodeLocation d parent).toList (stepTo d parent n).toList
  /-- An attribute is shown by its name behind an at sign. -/
  | attr {n : NodeId} {i : Nat} {a : Attribute} (h : (d.attributes n)[i]? = some a) :
    Shown d (.attr n i) (nodeLocation d n).toList ('@' :: a.name.written.toList)

section Places

variable {d : Document} {p q : Place} {n m : NodeId}

theorem nodeLocation_inj (h : d.WellFormed) (hapart : TellsApart d) (hn : n < d.size) :
    ∀ m < d.size, nodeLocation d n = nodeLocation d m → n = m := by
  have hempty : ∀ {parent k}, d.Over parent k → nodeLocation d k ≠ "" := fun hk => by
    simp [nodeLocation_of_over h.linked hk]
  have hproper : ∀ {parent k}, d.Over parent k → (d.payload k).Proper := fun hk =>
    h.nodes _ (Document.lt_size_of_parent? hk) (h.linked.ne_root_of_over hk)
  have hparent : ∀ {k : NodeId}, k < d.size → k ≠ root → ∃ parent < d.size, d.Over parent k :=
    fun hk hne => by
      obtain ⟨parent, hlt, hover⟩ := h.linked.parent_lt _ hk hne
      exact ⟨parent, Nat.lt_trans hlt hk, hover⟩
  refine h.linked.induction_above (P := fun n => ∀ m < d.size,
    nodeLocation d n = nodeLocation d m → n = m) ?_ ?_ hn
  · intro m hm heq
    by_contra hne
    obtain ⟨parent, -, hover⟩ := hparent hm (Ne.symm hne)
    exact hempty hover (heq.symm.trans (nodeLocation_root h.linked))
  · intro parent n hover ih m hm heq
    have hne : m ≠ root := by
      rintro rfl
      exact hempty hover (heq.trans (nodeLocation_root h.linked))
    obtain ⟨other, hother, hover'⟩ := hparent hm hne
    rw [nodeLocation_of_over h.linked hover, nodeLocation_of_over h.linked hover'] at heq
    have hlist : (nodeLocation d parent).toList ++ '/' :: (stepTo d parent n).toList =
        (nodeLocation d other).toList ++ '/' :: (stepTo d other m).toList := by
      simpa using congrArg String.toList heq
    -- No step has a slash in it, so the last one stands between the step and what is above.
    obtain ⟨habove, hstep⟩ := split_last_inj (slash_notMem_stepTo (hproper hover))
      (slash_notMem_stepTo (hproper hover')) hlist
    obtain rfl := ih other hother (String.toList_injective habove)
    obtain ⟨hlabel, hnumber⟩ :=
      stepTo_inj (hproper hover) (hproper hover') (String.toList_injective hstep)
    refine eq_of_siblingNumber h.linked hover hover' ?_ hnumber
    rcases eq_or_sameKind_of_stepLabel (hproper hover) (hproper hover') hlabel with
      ⟨e, f, he, hf, hwritten⟩ | hsame
    · rw [he, hf]
      exact hapart.elements parent n (h.linked.mem_children_iff.2 hover) m
        (h.linked.mem_children_iff.2 hover') e (Document.element?_eq_some_iff.2 he) f
        (Document.element?_eq_some_iff.2 hf) hwritten hnumber
    · exact hsame

theorem location_root (h : d.Linked) : location d (.node root) = "/" := by
  rw [location, nodeLocation_root h]
  rfl

theorem location_of_over (h : d.Linked) {parent : NodeId} (hover : d.Over parent n) :
    location d (.node n) = nodeLocation d parent ++ "/" ++ stepTo d parent n := by
  have hne : nodeLocation d n ≠ "" := by
    simp [nodeLocation_of_over h hover]
  rw [location, if_neg hne, nodeLocation_of_over h hover]

theorem location_attr {i : Nat} {a : Attribute} (ha : (d.attributes n)[i]? = some a) :
    location d (.attr n i) = nodeLocation d n ++ "/@" ++ a.name.written := by
  rw [location, ha]

theorem exists_shown (h : d.Linked) (hp : p.IsIn d) : ∃ above step, Shown d p above step := by
  cases p with
  | node n =>
    by_cases hne : n = root
    · exact hne ▸ ⟨_, _, .root⟩
    · obtain ⟨parent, -, hover⟩ := h.parent_lt n hp hne
      exact ⟨_, _, .child hover⟩
  | attr n i => exact ⟨_, _, .attr (List.getElem?_eq_getElem hp)⟩

namespace Shown

variable {above step : List Char}

theorem location_eq (h : d.Linked) (hshown : Shown d p above step) :
    (location d p).toList = above ++ '/' :: step := by
  cases hshown with
  | root => rw [location_root h]; rfl
  | child hover => simp [location_of_over h hover]
  | attr ha => simp [location_attr ha]

theorem slash_notMem (h : d.WellFormed) (hshown : Shown d p above step) : '/' ∉ step := by
  cases hshown with
  | root => exact List.not_mem_nil
  | @child parent n hover =>
    exact slash_notMem_stepTo
      (h.nodes n (Document.lt_size_of_parent? hover) (h.linked.ne_root_of_over hover))
  | @attr n i a ha =>
    have hproper := h.attributes_proper a (List.mem_of_getElem? ha)
    intro hc
    rcases List.mem_cons.1 hc with hc | hc
    · cases hc
    · exact absurd (Markup.isNameChar_of_mem_written hproper.spelled hc) (by decide)

end Shown

end Places

/-- Where written names and numbers tell siblings apart, locations tell places apart. -/
theorem TellsApart.location_inj {d : Document} (hapart : TellsApart d) (h : d.WellFormed)
    {p q : Place} (hp : p.IsIn d) (hq : q.IsIn d) (heq : location d p = location d q) : p = q := by
  obtain ⟨above, step, hshown⟩ := exists_shown h.linked hp
  obtain ⟨above', step', hshown'⟩ := exists_shown h.linked hq
  have hlist := congrArg String.toList heq
  rw [hshown.location_eq h.linked, hshown'.location_eq h.linked] at hlist
  obtain ⟨habove, hstep⟩ := split_last_inj (hshown.slash_notMem h) (hshown'.slash_notMem h) hlist
  have hproper : ∀ {parent k}, d.Over parent k → (d.payload k).Proper := fun hk =>
    h.nodes _ (Document.lt_size_of_parent? hk) (h.linked.ne_root_of_over hk)
  have hnil : ∀ parent n, (stepTo d parent n).toList ≠ [] := fun parent n => by
    simp [toList_stepTo]
  -- The step to the root is empty, and only that to an attribute begins with an at sign.
  cases hshown with
  | root =>
    cases hshown' with
    | root => rfl
    | @child parent n _ => exact absurd hstep.symm (hnil parent n)
    | attr _ => cases hstep
  | @child parent n hover =>
    cases hshown' with
    | root => exact absurd hstep (hnil parent n)
    | @child other m hover' =>
      have hlocation : nodeLocation d n = nodeLocation d m := by
        rw [nodeLocation_of_over h.linked hover, nodeLocation_of_over h.linked hover',
          String.toList_injective habove, String.toList_injective hstep]
      rw [nodeLocation_inj h hapart hp m hq hlocation]
    | attr _ =>
      have hat : '@' ∈ (stepTo d parent n).toList := hstep ▸ List.mem_cons_self
      exact absurd hat (at_notMem_stepTo (hproper hover))
  | @attr n i a ha =>
    cases hshown' with
    | root => cases hstep
    | @child parent m hover =>
      have hat : '@' ∈ (stepTo d parent m).toList := hstep ▸ List.mem_cons_self
      exact absurd hat (at_notMem_stepTo (hproper hover))
    | @attr m k b hb =>
      have howner : n = m := nodeLocation_inj h hapart hp.owner_lt m hq.owner_lt
        (String.toList_injective habove)
      subst howner
      have hwritten : a.name.written = b.name.written :=
        String.toList_injective (List.cons.inj hstep).2
      have hat : ((d.attributes n).map fun a => a.name.written)[i]? =
          ((d.attributes n).map fun a => a.name.written)[k]? := by
        rw [List.getElem?_map, List.getElem?_map, ha, hb, Option.map_some, Option.map_some, hwritten]
      have hi : i < ((d.attributes n).map fun a => a.name.written).length := by
        rw [List.length_map]
        exact hp
      rw [(List.getElem?_inj hi (hapart.attributes n)).1 hat]

/-- Names that are written alike have one label and one local part. -/
theorem written_inj {a b : Name} (ha : Spelled a.label a.localPart)
    (hb : Spelled b.label b.localPart) (h : a.written = b.written) :
    a.label = b.label ∧ a.localPart = b.localPart := by
  have hsplit := Markup.splitQualified_written ha
  rw [h, Markup.splitQualified_written hb] at hsplit
  cases a
  cases b
  cases hsplit
  exact ⟨rfl, rfl⟩

/-- Places are told apart where a label has one namespace among siblings and among the attributes
of an element. -/
theorem TellsApart.of_labels {d : Document} (h : d.WellFormed)
    (helements : ∀ parent, ∀ n ∈ d.children parent, ∀ m ∈ d.children parent,
      ∀ e ∈ d.element? n, ∀ f ∈ d.element? m, e.name.label = f.name.label → e.name.uri = f.name.uri)
    (hattributes : ∀ n, ∀ a ∈ d.attributes n, ∀ b ∈ d.attributes n,
      a.name.label = b.name.label → a.name.uri = b.name.uri) : TellsApart d where
  elements parent n hn m hm e he f hf hwritten _ := by
    obtain ⟨hlabel, hlocal⟩ :=
      written_inj (h.element_proper he).spelled (h.element_proper hf).spelled hwritten
    simp [Name.same, hlocal, helements parent n hn m hm e he f hf hlabel]
  attributes n := by
    have hdistinct := h.nodup_expandedNames (n := n)
    rw [expandedNames, List.Nodup, List.pairwise_map] at hdistinct
    rw [List.Nodup, List.pairwise_map]
    refine hdistinct.imp_of_mem fun {a b} ha hb hne hwritten => hne ?_
    obtain ⟨hlabel, hlocal⟩ := written_inj (h.attributes_proper a ha).spelled
      (h.attributes_proper b hb).spelled hwritten
    rw [hlocal, hattributes n a ha b hb hlabel]

/-- In a document that was read, two places have one location only if they are one place, exactly
if siblings that are written alike have different numbers or one expanded name and no two
attributes of an element are written alike. -/
theorem locations_differ_iff {text : String} {origin : Option String} {d : Document}
    (h : Document.read text origin = .ok d) :
    (∀ p q : Place, p.IsIn d → q.IsIn d → location d p = location d q → p = q) ↔ TellsApart d := by
  have hformed : d.WellFormed := .of_read h
  refine ⟨fun hinj => ⟨?_, ?_⟩, fun hapart p q hp hq => hapart.location_inj hformed hp hq⟩
  · intro parent n hn m hm e he f hf hwritten hnumber
    have hover := hformed.linked.mem_children_iff.1 hn
    have hover' := hformed.linked.mem_children_iff.1 hm
    have hlocation : location d (.node n) = location d (.node m) := by
      have hlabel : stepLabel (d.payload n) = stepLabel (d.payload m) := by
        rw [Document.element?_eq_some_iff.1 he, Document.element?_eq_some_iff.1 hf]
        exact hwritten
      rw [location_of_over hformed.linked hover, location_of_over hformed.linked hover', stepTo,
        stepTo, hnumber, hlabel]
    have hplace : Place.node n = .node m :=
      hinj _ _ (Document.lt_size_of_parent? hover) (Document.lt_size_of_parent? hover') hlocation
    cases hplace
    cases he.symm.trans hf
    simp [Name.same]
  · intro n
    rw [List.nodup_iff_getElem?_ne_getElem?]
    intro i k hik hk heq
    rw [List.length_map] at hk
    have hi : i < (d.attributes n).length := Nat.lt_trans hik hk
    have ha := List.getElem?_eq_getElem hi
    have hb := List.getElem?_eq_getElem hk
    rw [List.getElem?_map, List.getElem?_map, ha, hb] at heq
    have hlocation : location d (.attr n i) = location d (.attr n k) := by
      have hwritten : (d.attributes n)[i].name.written = (d.attributes n)[k].name.written :=
        Option.some.inj heq
      rw [location_attr ha, location_attr hb, hwritten]
    have hplace : Place.attr n i = .attr n k := hinj _ _ hi hk hlocation
    cases hplace
    exact Nat.lt_irrefl i hik

/-- Two elements and two attributes of one local part each, with and without a namespace, and
character data between them. -/
def mixedDocument : Document where
  nodes := #[
    ⟨.document, none, #[1]⟩,
    ⟨.element ⟨.plain "r", [], [⟨some "p", "urn:p"⟩]⟩, some 0, #[2, 3, 4, 5]⟩,
    ⟨.element ⟨.plain "a", [], []⟩, some 1, #[]⟩,
    ⟨.element ⟨.within "urn:p" "p" "a",
      [⟨.within "urn:p" "p" "x", "1"⟩, ⟨.plain "x", "2"⟩], []⟩, some 1, #[]⟩,
    ⟨.text "t", some 1, #[]⟩,
    ⟨.element ⟨.plain "a", [], []⟩, some 1, #[]⟩]
  origin := none

theorem locations_differ_in_mixedDocument :
    let text := "<r xmlns:p='urn:p'><a/><p:a p:x='1' x='2'/>t<a/></r>"
    Document.read text none = .ok mixedDocument ∧ TellsApart mixedDocument ∧
      ∀ p q : Place, p.IsIn mixedDocument → q.IsIn mixedDocument →
        location mixedDocument p = location mixedDocument q → p = q := by
  intro text
  have hread : Document.read text none = .ok mixedDocument := by decide +kernel
  have hapart : TellsApart mixedDocument := by
    refine .of_labels (.of_read hread) (fun parent => ?_) fun n => ?_
    · match parent with
      | 0 | 1 | 2 | 3 | 4 | 5 => decide
      | k + 6 => exact nofun
    · match n with
      | 0 | 1 | 2 | 3 | 4 | 5 => decide
      | k + 6 => exact nofun
  exact ⟨hread, hapart, (locations_differ_iff hread).2 hapart⟩

/-- Siblings with one label for two namespaces are shown alike. -/
theorem siblings_shown_alike :
    ∃ d, Document.read "<r><a/><a xmlns='urn:x'/></r>" none = .ok d ∧
      (Place.node 2).IsIn d ∧ (Place.node 3).IsIn d ∧
      location d (.node 2) = "/r[1]/a[1]" ∧ location d (.node 3) = "/r[1]/a[1]" :=
  ⟨_, rfl, by decide, by decide, by decide, by decide⟩

end MarkupRules.Validation
