/-
# Labels in force

The reader, the writer and the document itself each have an order in which they keep the bindings
in force: the reader puts those of an element before those around it and leaves out what is declared
again, the writer puts new bindings in front one by one, and a document looks through the elements
upwards. Labels are looked up alike in all of them. So a start tag needs to declare just those
bindings of its element that are not in force yet, if they bind each label once and every name has
the namespace of its label.

Key definitions: `missing`, `Agrees`, `expandedNames`, `Element.Told`.

Key theorems: `boundUri?_scopeWithin`, `lookupUri?_of_over`, `declarations_eq`,
`agrees_scopeWithin`.
-/
import MarkupRules.Markup.Reader
import MarkupRules.Markup.Writer
import MarkupRules.Proofs.Markup.Preorder

namespace MarkupRules.Markup

open Document (boundUri?)

/-! ### Looking up labels -/

section Lookup

variable {label : Option String}

theorem boundUri?_cons (b : Binding) (bs : List Binding) :
    boundUri? (b :: bs) label = if b.label = label then some b.uri else boundUri? bs label := by
  unfold boundUri?
  by_cases h : b.label = label <;> simp [h]

theorem boundUri?_append (xs ys : List Binding) :
    boundUri? (xs ++ ys) label = (boundUri? xs label).or (boundUri? ys label) := by
  induction xs with
  | nil => rfl
  | cons b xs ih =>
    rw [List.cons_append, boundUri?_cons, boundUri?_cons, ih]
    split <;> rfl

theorem boundUri?_isSome_iff {bs : List Binding} :
    (boundUri? bs label).isSome ↔ ∃ b ∈ bs, b.label = label := by
  simp [boundUri?]

/-- Where each label is bound once, the bindings in a list are those that are found. -/
theorem boundUri?_eq_some_iff {bs : List Binding} (h : (bs.map Binding.label).Nodup)
    {uri : String} : boundUri? bs label = some uri ↔ ⟨label, uri⟩ ∈ bs := by
  induction bs with
  | nil => simp [boundUri?]
  | cons b bs ih =>
    obtain ⟨hb, hbs⟩ := List.nodup_cons.1 h
    rw [boundUri?_cons, List.mem_cons]
    by_cases hlabel : b.label = label
    · have hnot : (⟨label, uri⟩ : Binding) ∉ bs := fun hmem =>
        hb (hlabel ▸ List.mem_map_of_mem hmem)
      rw [if_pos hlabel, or_iff_left hnot, ← hlabel]
      constructor
      · intro h
        cases h
        rfl
      · intro h
        rw [← h]
    · rw [if_neg hlabel, ih hbs]
      refine (or_iff_right ?_).symm
      rintro rfl
      exact hlabel rfl

/-- The reader finds the bindings of an element before those around it. -/
theorem boundUri?_scopeWithin (own around : List Binding) :
    boundUri? (scopeWithin own around) label =
      (boundUri? own label).or (boundUri? around label) := by
  unfold scopeWithin
  induction around generalizing own with
  | nil => simp [boundUri?]
  | cons b around ih =>
    rw [List.foldl_cons, ih, boundUri?_cons]
    by_cases hlabel : b.label = label
    · by_cases hown : own.any fun o => o.label = b.label
      · have hsome : (boundUri? own label).isSome := by
          rw [boundUri?_isSome_iff, ← hlabel]
          simpa using hown
        obtain ⟨uri, huri⟩ := Option.isSome_iff_exists.1 hsome
        rw [if_pos hown, huri]
        rfl
      · rw [if_neg hown, boundUri?_append, boundUri?_cons, if_pos hlabel, if_pos hlabel]
        have hnone : boundUri? own label = none := by
          by_contra hne
          obtain ⟨o, ho, heq⟩ := boundUri?_isSome_iff.1 (Option.isSome_iff_ne_none.2 hne)
          exact hown (List.any_eq_true.2 ⟨o, ho, by simp [heq, hlabel]⟩)
        rw [hnone]
        rfl
    · rw [if_neg hlabel]
      split
      · rfl
      · rw [boundUri?_append, boundUri?_cons, if_neg hlabel]
        simp [boundUri?]

/-- What the reader makes of a label that has a namespace or is the default. -/
theorem uriOf_eq_ok {scope : List Binding} {uri : Option String}
    (h : boundUri? scope label = uri) (hsome : label.isSome → uri.isSome) :
    uriOf scope label = .ok uri := by
  have hfind : scope.find? (fun b => b.label == label) = scope.find? fun b => b.label = label := by
    congr 1
    funext b
    rw [Bool.eq_iff_iff, beq_iff_eq, decide_eq_true_eq]
  rw [boundUri?, hfind] at h
  unfold uriOf
  split
  · next b hb =>
    rw [hb] at h
    rw [← h]
    rfl
  · next hb =>
    rw [hb] at h
    cases label with
    | none => rw [← h]; rfl
    | some l => exact absurd (hsome rfl) (by simp [← h])

end Lookup

/-! ### Labels in a document -/

namespace Document

variable {d : Document}

/-- Nothing but the label of markup itself is bound at the document node. -/
theorem lookupUri?_root (h : d.Linked) (hroot : d.element? root = none) {label : Option String}
    (hlabel : label ≠ some xmlLabel) : d.lookupUri? root label = none := by
  rw [lookupUri?, if_neg hlabel, Linked.ancestors_eq_nil h.parent_root]
  simp [hroot]

/-- An element binds labels in front of what is above it. -/
theorem lookupUri?_of_over (h : d.Linked) {parent n : NodeId} (hp : d.Over parent n) {e : Element}
    (he : d.element? n = some e) {label : Option String} (hlabel : label ≠ some xmlLabel) :
    d.lookupUri? n label = (boundUri? e.bindings label).or (d.lookupUri? parent label) := by
  rw [lookupUri?, lookupUri?, if_neg hlabel, if_neg hlabel, List.findSome?_cons, he,
    h.ancestors_eq_cons hp]
  rcases hbound : boundUri? e.bindings label with _ | uri <;> simp [hbound]

end Document

/-- A list of bindings in which labels are looked up like in another way. The label of markup
itself is in no list. -/
def Agrees (lookup : Option String → Option String) (scope : List Binding) : Prop :=
  ∀ label, label ≠ some xmlLabel → boundUri? scope label = lookup label

/-! ### What a start tag declares -/

/-- The bindings that are not in force yet. -/
def missing (scope bindings : List Binding) : List Binding :=
  bindings.filter fun b => boundUri? scope b.label ≠ some b.uri

section Missing

variable {scope bindings : List Binding}

theorem nodup_missing (h : (bindings.map Binding.label).Nodup) :
    ((missing scope bindings).map Binding.label).Nodup :=
  h.sublist (List.filter_sublist.map Binding.label)

/-- With the missing bindings all of them are in force, in front of what was. -/
theorem boundUri?_missing (h : (bindings.map Binding.label).Nodup) (label : Option String) :
    (boundUri? (missing scope bindings) label).or (boundUri? scope label) =
      (boundUri? bindings label).or (boundUri? scope label) := by
  rcases hbound : boundUri? bindings label with _ | uri
  · have hnone : boundUri? (missing scope bindings) label = none := by
      by_contra hne
      obtain ⟨b, hb, hlabel⟩ := boundUri?_isSome_iff.1 (Option.isSome_iff_ne_none.2 hne)
      have hsome := boundUri?_isSome_iff.2 ⟨b, List.mem_of_mem_filter hb, hlabel⟩
      simp [hbound] at hsome
    rw [hnone]
  · have hmem : (⟨label, uri⟩ : Binding) ∈ bindings := (boundUri?_eq_some_iff h).1 hbound
    by_cases hforce : boundUri? scope label = some uri
    · rcases hmissing : boundUri? (missing scope bindings) label with _ | other
      · rw [hforce, Option.none_or, Option.some_or]
      · have hother := List.mem_of_mem_filter
          ((boundUri?_eq_some_iff (nodup_missing h)).1 hmissing)
        rw [(boundUri?_eq_some_iff h).2 hother] at hbound
        rw [hbound]
    · have hin : (⟨label, uri⟩ : Binding) ∈ missing scope bindings :=
        List.mem_filter.2 ⟨hmem, by simpa using hforce⟩
      rw [(boundUri?_eq_some_iff (nodup_missing h)).2 hin]

/-- Where each label is bound once, the order does not matter. -/
theorem boundUri?_reverse (h : (bindings.map Binding.label).Nodup) (label : Option String) :
    boundUri? bindings.reverse label = boundUri? bindings label := by
  have hreverse : (bindings.reverse.map Binding.label).Nodup := by
    rw [List.map_reverse]
    exact List.nodup_reverse.2 h
  refine Option.ext fun uri => ?_
  rw [boundUri?_eq_some_iff hreverse, boundUri?_eq_some_iff h, List.mem_reverse]

/-- A binding in force needs no declaration. -/
theorem Declaring.need_of_bound {s : Declaring} {label : Option String} {uri : String}
    (h : label ≠ some xmlLabel → boundUri? s.scope label = some uri) : s.need label uri = s := by
  unfold need
  split
  · rfl
  · next hlabel => exact if_pos (h hlabel)

theorem Declaring.need_of_missing {s : Declaring} {b : Binding} (hxml : b.label ≠ some xmlLabel)
    (h : boundUri? s.scope b.label ≠ some b.uri) :
    s.need b.label b.uri = ⟨b :: s.scope, s.declared ++ [b]⟩ := by
  rw [need, if_neg hxml]
  exact if_neg h

/-- The bindings of an element are declared if they are missing. -/
theorem foldl_need : ∀ {bindings : List Binding} (s : Declaring),
    (bindings.map Binding.label).Nodup → (∀ b ∈ bindings, b.label ≠ some xmlLabel) →
    bindings.foldl (fun s b => s.need b.label b.uri) s =
      ⟨(missing s.scope bindings).reverse ++ s.scope, s.declared ++ missing s.scope bindings⟩
  | [], s, _, _ => by simp [missing]
  | b :: bindings, s, hnodup, hxml => by
    obtain ⟨hb, hbs⟩ := List.nodup_cons.1 hnodup
    obtain ⟨hbxml, hbsxml⟩ := List.forall_mem_cons.1 hxml
    rw [List.foldl_cons]
    by_cases hforce : boundUri? s.scope b.label = some b.uri
    · have hskip : missing s.scope (b :: bindings) = missing s.scope bindings := by
        simp [missing, hforce]
      rw [Declaring.need_of_bound fun _ => hforce, foldl_need s hbs hbsxml, hskip]
    · have hrest : missing (b :: s.scope) bindings = missing s.scope bindings := by
        refine List.filter_congr fun c hc => ?_
        have hlabel : b.label ≠ c.label := fun heq => hb (heq ▸ List.mem_map_of_mem hc)
        rw [boundUri?_cons, if_neg hlabel]
      have htake : missing s.scope (b :: bindings) = b :: missing s.scope bindings := by
        simp [missing, hforce]
      rw [Declaring.need_of_missing hbxml hforce, foldl_need _ hbs hbsxml, hrest, htake]
      simp

end Missing

/-- The names of attributes without their labels. -/
def expandedNames (attributes : List Attribute) : List (Option String × String) :=
  attributes.map fun a => (a.name.uri, a.name.localPart)

/-- All names of an element have the namespaces of their labels, where a name without a label is in
the default namespace if it is that of the element, and in none if it is that of an attribute. -/
structure Element.Told (lookup : Option String → Option String) (e : Element) : Prop where
  /-- The name of the element. -/
  name : e.name.uri = lookup e.name.label
  /-- A label has a namespace. -/
  labelled : e.name.label.isSome → e.name.uri.isSome
  /-- Attributes with labels. -/
  attributes : ∀ a ∈ e.attributes, ∀ l, a.name.label = some l →
    a.name.uri = lookup (some l) ∧ a.name.uri.isSome
  /-- Attributes without labels. -/
  plain : ∀ a ∈ e.attributes, a.name.label = none → a.name.uri = none

section Declarations

variable {scope : List Binding} {e : Element} {lookup : Option String → Option String}

theorem needName_eq {s : Declaring} {name : Name} (hs : Agrees lookup s.scope)
    (hname : name.uri = lookup name.label) : s.needName name = s := by
  unfold Declaring.needName
  split
  · next uri huri =>
    exact Declaring.need_of_bound fun hlabel => by rw [hs _ hlabel, ← hname, huri]
  · next huri =>
    split
    · rfl
    · next hlabel =>
      have hnone : boundUri? s.scope none = none := by
        rw [hlabel, huri] at hname
        rw [hs none (by simp), ← hname]
      have hfind : s.scope.find? (fun b => b.label.isNone) = none := by
        refine List.find?_eq_none.2 fun b hb hlabel => ?_
        have hsome := boundUri?_isSome_iff.2 ⟨b, hb, Option.isNone_iff_eq_none.1 hlabel⟩
        simp [hnone] at hsome
      rw [hfind]

theorem needAttribute_eq {s : Declaring} {a : Attribute} (hs : Agrees lookup s.scope)
    (ha : ∀ l, a.name.label = some l → a.name.uri = lookup (some l)) :
    s.needAttribute a = s := by
  unfold Declaring.needAttribute
  split
  · next uri l huri hlabel =>
    exact Declaring.need_of_bound fun hxml => by rw [hs _ hxml, ← ha l hlabel, huri]
  · rfl

/-- Under bindings that agree with those around an element, its start tag declares the missing
ones and no others. -/
theorem declarations_eq {around : Option String → Option String} (hscope : Agrees around scope)
    (hnodup : (e.bindings.map Binding.label).Nodup)
    (hxml : ∀ b ∈ e.bindings, b.label ≠ some xmlLabel)
    (hinside : ∀ label, label ≠ some xmlLabel →
      lookup label = (boundUri? e.bindings label).or (around label))
    (htold : e.Told lookup) :
    declarations scope e =
        ⟨(missing scope e.bindings).reverse ++ scope, missing scope e.bindings⟩ ∧
      Agrees lookup (declarations scope e).scope := by
  have hagrees : Agrees lookup ((missing scope e.bindings).reverse ++ scope) := by
    intro label hlabel
    rw [boundUri?_append, boundUri?_reverse (nodup_missing hnodup), boundUri?_missing hnodup,
      hinside label hlabel, hscope label hlabel]
  have hattributes : ∀ (as : List Attribute) (s : Declaring), as ⊆ e.attributes →
      Agrees lookup s.scope → as.foldl Declaring.needAttribute s = s := by
    intro as
    induction as with
    | nil => exact fun _ _ _ => rfl
    | cons a as ih =>
      intro s hsub hs
      obtain ⟨ha, has⟩ := List.cons_subset.1 hsub
      rw [List.foldl_cons, needAttribute_eq hs fun l hl => (htold.attributes a ha l hl).1]
      exact ih s has hs
  -- Once the bindings of the element are declared, its names ask for nothing else.
  have heq : declarations scope e =
      ⟨(missing scope e.bindings).reverse ++ scope, missing scope e.bindings⟩ := by
    unfold declarations
    dsimp only
    rw [foldl_need _ hnodup hxml, needName_eq hagrees htold.name]
    exact hattributes _ _ (List.Subset.refl _) hagrees
  exact ⟨heq, heq ▸ hagrees⟩

/-- What the reader has in force inside the element agrees with it too. -/
theorem agrees_scopeWithin {around : Option String → Option String} {outer : List Binding}
    (hscope : Agrees around scope) (houter : Agrees around outer)
    (hnodup : (e.bindings.map Binding.label).Nodup)
    (hinside : ∀ label, label ≠ some xmlLabel →
      lookup label = (boundUri? e.bindings label).or (around label)) :
    Agrees lookup (scopeWithin (missing scope e.bindings) outer) := by
  intro label hlabel
  rw [boundUri?_scopeWithin, houter label hlabel, ← hscope label hlabel,
    boundUri?_missing hnodup, hscope label hlabel, hinside label hlabel]

end Declarations

end MarkupRules.Markup
