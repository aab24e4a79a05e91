/-
# Names in written documents

A start tag declares what its element asks for: its own bindings, the binding of its name and those
of its attributes, as far as they are not in force. If an element asks for one namespace under each
label, no label is declared twice on its tag, and looked up through the declarations on the tags
around it, innermost first, the label of every name has the namespace of the name. This holds
wherever the element came from, since only its own tag has to make up for what is around it.

Key definitions: `Element.asked`, `Element.Consistent`, `namespaceBelow`, `Document.Resolves`.

Key theorems: `Declaring.goes_need`, `declarations_sound`, `namedBelow_declarations`,
`written_names_resolve`.
-/
import MarkupRules.Proofs.Markup.Scopes
import MarkupRules.Proofs.Markup.Unlabelled

namespace MarkupRules.Markup

open Document (boundUri? root)

/-! ### Consistent elements -/

/-- The namespace that is meant: an empty one is none. -/
def meant (uri : Option String) : Option String :=
  uri.filter fun u => u ≠ ""

/-- What the name of an element asks for: its label with its namespace, or with an empty one. -/
def Name.asked (n : Name) : Binding :=
  ⟨n.label, n.uri.getD ""⟩

/-- What an attribute asks for, if it is in a namespace and has a label. -/
def Attribute.asked? (a : Attribute) : Option Binding :=
  match a.name.uri, a.name.label with
  | some uri, some label => some ⟨some label, uri⟩
  | _, _ => none

/-- What an element asks for: its own bindings, that of its name and those of its attributes. -/
def Element.asked (e : Element) : List Binding :=
  e.bindings ++ e.name.asked :: e.attributes.filterMap Attribute.asked?

/-- An element that asks for nothing impossible. -/
structure Element.Consistent (e : Element) : Prop where
  /-- No label is asked for two namespaces. So in no namespace there is no default but an empty
  one. -/
  single : ∀ b ∈ e.asked, ∀ c ∈ e.asked, b.label = c.label → b.uri = c.uri
  /-- In no namespace there is no label. -/
  plain : e.name.uri = none → e.name.label = none
  /-- The label of markup itself stands for the namespace of markup only. -/
  xml : ∀ b ∈ e.asked, b.label = some xmlLabel → b.uri = xmlUri

instance (e : Element) : Decidable e.Consistent :=
  decidable_of_iff
    ((∀ b ∈ e.asked, ∀ c ∈ e.asked, b.label = c.label → b.uri = c.uri) ∧
      (e.name.uri = none → e.name.label = none) ∧
      ∀ b ∈ e.asked, b.label = some xmlLabel → b.uri = xmlUri)
    ⟨fun ⟨h, h', h''⟩ => ⟨h, h', h''⟩, fun h => ⟨h.single, h.plain, h.xml⟩⟩

/-! ### What is declared for an element -/

namespace Declaring

variable {asked scope : List Binding} {s t u : Declaring} {b c : Binding}

/-- A binding that is in force, or need not be. -/
def Gives (s : Declaring) (b : Binding) : Prop :=
  b.label ≠ some xmlLabel → meant (boundUri? s.scope b.label) = meant (some b.uri)

/-- What is in force is what was and what is declared, which is asked for and has each label
once. -/
structure Sound (asked scope : List Binding) (s : Declaring) : Prop where
  /-- What is declared is in force in front of what was. -/
  scope_eq : s.scope = s.declared.reverse ++ scope
  /-- No label is declared twice. -/
  nodup : (s.declared.map Binding.label).Nodup
  /-- Only what is asked for is declared. -/
  asked : ∀ b ∈ s.declared, b ∈ asked

theorem sound_start (asked scope : List Binding) : Sound asked scope ⟨scope, []⟩ :=
  ⟨rfl, List.nodup_nil, nofun⟩

theorem Sound.boundUri?_eq (h : s.Sound asked scope) (label : Option String) :
    boundUri? s.scope label = (boundUri? s.declared label).or (boundUri? scope label) := by
  rw [h.scope_eq, boundUri?_append, boundUri?_reverse h.nodup]

/-- Steps that declare what is asked for and take nothing back. -/
structure Goes (asked scope : List Binding) (s t : Declaring) : Prop where
  /-- What is declared stays sound. -/
  sound : s.Sound asked scope → t.Sound asked scope
  /-- What is asked for and given stays given. -/
  gives : ∀ b ∈ asked, s.Gives b → t.Gives b

theorem Goes.refl (s : Declaring) : s.Goes asked scope s :=
  ⟨id, fun _ _ => id⟩

theorem Goes.trans (h : s.Goes asked scope t) (h' : t.Goes asked scope u) :
    s.Goes asked scope u :=
  ⟨fun hs => h'.sound (h.sound hs), fun b hb hs => h'.gives b hb (h.gives b hb hs)⟩

/-- After it is needed, a binding is given. -/
theorem gives_need (s : Declaring) (b : Binding) : (s.need b.label b.uri).Gives b := by
  intro hlabel
  by_cases hbound : boundUri? s.scope b.label = some b.uri
  · rw [need_of_bound fun _ => hbound, hbound]
  · rw [need_of_missing hlabel hbound, boundUri?_cons, if_pos rfl]

theorem needAttribute_eq_asked (s : Declaring) (a : Attribute) :
    s.needAttribute a = match a.asked? with
      | some b => s.need b.label b.uri
      | none => s := by
  unfold needAttribute Attribute.asked?
  cases a.name.uri <;> cases a.name.label <;> rfl

variable (hsingle : ∀ b ∈ asked, ∀ c ∈ asked, b.label = c.label → b.uri = c.uri)

include hsingle

/-- What is asked for and not in force has a label that was not declared. -/
theorem Sound.need (h : s.Sound asked scope) (hb : b ∈ asked) :
    (s.need b.label b.uri).Sound asked scope := by
  by_cases hforce : b.label ≠ some xmlLabel → boundUri? s.scope b.label = some b.uri
  · rwa [need_of_bound hforce]
  · obtain ⟨hlabel, hbound⟩ := Classical.not_imp.1 hforce
    have hfresh : b.label ∉ s.declared.map Binding.label := by
      intro hmem
      obtain ⟨c, hc, hsame⟩ := List.mem_map.1 hmem
      have huri : c.uri = b.uri := hsingle c (h.asked c hc) b hb hsame
      have hdeclared : boundUri? s.declared b.label = some b.uri :=
        (boundUri?_eq_some_iff h.nodup).2 (by rwa [← hsame, ← huri])
      exact hbound (by rw [h.boundUri?_eq, hdeclared, Option.some_or])
    rw [need_of_missing hlabel hbound]
    refine ⟨?_, ?_, List.forall_mem_append.2 ⟨h.asked, by simpa using hb⟩⟩
    · rw [h.scope_eq, List.reverse_append, List.reverse_singleton, List.singleton_append,
        List.cons_append]
    · rw [List.map_append, List.map_singleton, List.nodup_append]
      exact ⟨h.nodup, List.nodup_singleton _, fun l hl m hm heq =>
        hfresh (List.mem_singleton.1 hm ▸ heq ▸ hl)⟩

theorem goes_need (s : Declaring) (hb : b ∈ asked) :
    s.Goes asked scope (s.need b.label b.uri) := by
  refine ⟨fun h => h.need hsingle hb, fun c hc hgives hlabel => ?_⟩
  by_cases hforce : b.label ≠ some xmlLabel → boundUri? s.scope b.label = some b.uri
  · rw [need_of_bound hforce, hgives hlabel]
  · obtain ⟨hxml, hbound⟩ := Classical.not_imp.1 hforce
    rw [need_of_missing hxml hbound, boundUri?_cons]
    split
    · next hsame => rw [hsingle b hb c hc hsame]
    · exact hgives hlabel

theorem goes_bindings : ∀ (bs : List Binding) (s : Declaring), bs ⊆ asked →
    s.Goes asked scope (bs.foldl (fun s b => s.need b.label b.uri) s)
  | [], s, _ => .refl s
  | b :: bs, s, hsub => by
    obtain ⟨hb, hbs⟩ := List.cons_subset.1 hsub
    exact (goes_need hsingle s hb).trans (goes_bindings bs _ hbs)

/-- The name of an element is given what it asks for. -/
theorem goes_needName (s : Declaring) {name : Name} (hplain : name.uri = none → name.label = none)
    (hname : name.asked ∈ asked) :
    s.Goes asked scope (s.needName name) ∧ (s.needName name).Gives name.asked := by
  -- A name in no namespace asks for something only where another one is in force without a label.
  by_cases hnone : name.uri = none
  · have hasked : name.asked = ⟨none, ""⟩ := by
      rw [Name.asked, hnone, hplain hnone]
      rfl
    have hfind : (s.scope.find? fun b => b.label.isNone).map Binding.uri =
        boundUri? s.scope none := by
      unfold boundUri?
      congr 2
      funext b
      cases b.label <;> rfl
    rw [hasked] at hname ⊢
    rw [needName, hnone, hplain hnone]
    dsimp only
    split
    · next b hb =>
      rw [hb, Option.map_some] at hfind
      split
      · next hempty =>
        refine ⟨.refl s, fun _ => ?_⟩
        rw [← hfind, hempty]
      · exact ⟨goes_need hsingle s hname, gives_need s ⟨none, ""⟩⟩
    · next hb =>
      rw [hb, Option.map_none] at hfind
      refine ⟨.refl s, fun _ => ?_⟩
      rw [← hfind]
      rfl
  · obtain ⟨uri, huri⟩ := Option.ne_none_iff_exists'.1 hnone
    have hneed : s.needName name = s.need name.asked.label name.asked.uri := by
      rw [needName, Name.asked, huri]
      rfl
    rw [hneed]
    exact ⟨goes_need hsingle s hname, gives_need s name.asked⟩

/-- An attribute is given what it asks for. -/
theorem goes_needAttribute (s : Declaring) {a : Attribute} (ha : ∀ b ∈ a.asked?, b ∈ asked) :
    s.Goes asked scope (s.needAttribute a) ∧ ∀ b ∈ a.asked?, (s.needAttribute a).Gives b := by
  rw [needAttribute_eq_asked]
  cases hasked : a.asked? with
  | none => exact ⟨.refl s, nofun⟩
  | some b =>
    refine ⟨goes_need hsingle s (ha b hasked), fun c hc => ?_⟩
    cases hc
    exact gives_need s b

theorem goes_attributes : ∀ (as : List Attribute) (s : Declaring),
    (∀ a ∈ as, ∀ b ∈ a.asked?, b ∈ asked) →
    s.Goes asked scope (as.foldl Declaring.needAttribute s) ∧
      ∀ a ∈ as, ∀ b ∈ a.asked?, (as.foldl Declaring.needAttribute s).Gives b
  | [], s, _ => ⟨.refl s, nofun⟩
  | a :: as, s, hasked => by
    obtain ⟨ha, has⟩ := List.forall_mem_cons.1 hasked
    obtain ⟨hgoes, hgives⟩ := goes_needAttribute hsingle s ha
    obtain ⟨hgoes', hgives'⟩ := goes_attributes as (s.needAttribute a) has
    rw [List.foldl_cons]
    exact ⟨hgoes.trans hgoes', List.forall_mem_cons.2
      ⟨fun b hb => hgoes'.gives b (ha b hb) (hgives b hb), hgives'⟩⟩

end Declaring

section Declarations

variable {scope : List Binding} {e : Element}

/-- A start tag declares no label twice, and behind it the names of its element are given what they
ask for. -/
theorem declarations_sound (h : e.Consistent) :
    (declarations scope e).Sound e.asked scope ∧ (declarations scope e).Gives e.name.asked ∧
      ∀ a ∈ e.attributes, ∀ b ∈ a.asked?, (declarations scope e).Gives b := by
  have hname : e.name.asked ∈ e.asked := List.mem_append_right _ List.mem_cons_self
  have hbindings : e.bindings ⊆ e.asked := List.subset_append_left ..
  have hattributes : ∀ a ∈ e.attributes, ∀ b ∈ a.asked?, b ∈ e.asked := fun a ha b hb =>
    List.mem_append_right _ (List.mem_cons_of_mem _ (List.mem_filterMap.2 ⟨a, ha, hb⟩))
  let own : Declaring := e.bindings.foldl (fun s b => s.need b.label b.uri) ⟨scope, []⟩
  have hown : Declaring.Goes e.asked scope ⟨scope, []⟩ own :=
    Declaring.goes_bindings h.single e.bindings _ hbindings
  obtain ⟨hnamed, hgives⟩ : own.Goes e.asked scope (own.needName e.name) ∧
      (own.needName e.name).Gives e.name.asked :=
    Declaring.goes_needName h.single own h.plain hname
  obtain ⟨hlater, hgives'⟩ : (own.needName e.name).Goes e.asked scope (declarations scope e) ∧
      ∀ a ∈ e.attributes, ∀ b ∈ a.asked?, (declarations scope e).Gives b :=
    Declaring.goes_attributes h.single e.attributes _ hattributes
  have hall := (hown.trans hnamed).trans hlater
  exact ⟨hall.sound (Declaring.sound_start _ _), hlater.gives _ hname hgives, hgives'⟩

end Declarations

/-! ### Looking up labels on tags -/

/-- The namespace of a label below start tags, of which the declarations are listed from the
innermost one. The label of markup itself has its namespace everywhere. -/
def namespaceBelow (tags : List (List Binding)) (label : Option String) : Option String :=
  if label = some xmlLabel then some xmlUri
  else meant (tags.findSome? fun declared => boundUri? declared label)

/-- Below start tags, the labels of the names of an element have the namespaces of the names. -/
structure Element.NamedBelow (tags : List (List Binding)) (e : Element) : Prop where
  /-- The name of the element. -/
  name : namespaceBelow tags e.name.label = meant e.name.uri
  /-- The attributes with labels that are in a namespace. -/
  attributes : ∀ a ∈ e.attributes, ∀ uri label, a.name.uri = some uri → a.name.label = some label →
    namespaceBelow tags (some label) = meant (some uri)

/-- Bindings in force that are those declared on the tags around. -/
def InForce (tags : List (List Binding)) (scope : List Binding) : Prop :=
  ∀ label, boundUri? scope label = tags.findSome? fun declared => boundUri? declared label

section Tags

variable {tags : List (List Binding)} {scope : List Binding} {e : Element}

theorem inForce_nil : InForce [] [] :=
  fun _ => rfl

theorem InForce.declarations (h : InForce tags scope) (he : e.Consistent) :
    InForce ((declarations scope e).declared :: tags) (declarations scope e).scope := by
  intro label
  rw [(declarations_sound he).1.boundUri?_eq, h label, List.findSome?_cons]
  cases boundUri? (Markup.declarations scope e).declared label <;> rfl

/-- What is given is found on the tags. -/
theorem namespaceBelow_of_gives {s : Declaring} (h : InForce tags s.scope) {b : Binding}
    (hgives : s.Gives b) (hxml : b.label = some xmlLabel → b.uri = xmlUri) :
    namespaceBelow tags b.label = meant (some b.uri) := by
  unfold namespaceBelow
  split
  · next hlabel =>
    rw [hxml hlabel]
    rfl
  · next hlabel => rw [← h, hgives hlabel]

/-- Below its own start tag the names of an element have their namespaces. -/
theorem namedBelow_declarations (h : InForce tags scope) (he : e.Consistent) :
    e.NamedBelow ((declarations scope e).declared :: tags) := by
  obtain ⟨-, hname, hattributes⟩ := @declarations_sound scope _ he
  have hforce := h.declarations he
  have hasked : e.name.asked ∈ e.asked := List.mem_append_right _ List.mem_cons_self
  refine ⟨?_, fun a ha uri label huri hlabel => ?_⟩
  · have hfound := namespaceBelow_of_gives hforce hname (he.xml _ hasked)
    rw [Name.asked] at hfound
    rw [hfound]
    cases e.name.uri <;> rfl
  · have hb : (⟨some label, uri⟩ : Binding) ∈ a.asked? := by
      rw [Attribute.asked?, huri, hlabel]
      rfl
    have hmem : (⟨some label, uri⟩ : Binding) ∈ e.asked :=
      List.mem_append_right _ (List.mem_cons_of_mem _ (List.mem_filterMap.2 ⟨a, ha, hb⟩))
    exact namespaceBelow_of_gives hforce (hattributes a ha _ hb) (he.xml _ hmem)

end Tags

/-! ### Written documents -/

namespace Document

/-- A text of a node below start tags, of which the declarations are listed from the innermost one.
On the start tag of every element in it no label is declared twice, and below that tag the labels
of the names of the element have the namespaces of the names. -/
inductive Resolves (d : Document) : List (List Binding) → NodeId → List Char → Prop where
  /-- A node without a start tag, which is written alike everywhere. -/
  | other {tags : List (List Binding)} {n : NodeId} (hn : d.element? n = none) :
    Resolves d tags n (d.writeNode 1 [] n)
  /-- An element, with its start tag and what is below it. -/
  | element {tags : List (List Binding)} {n : NodeId} {e : Element} {declared : List Binding}
    {text : NodeId → List Char} (he : d.element? n = some e)
    (hdeclared : (declared.map Binding.label).Nodup) (hnamed : e.NamedBelow (declared :: tags))
    (hbelow : ∀ c ∈ d.children n, Resolves d (declared :: tags) c (text c)) :
    Resolves d tags n
      (if (d.children n).isEmpty then openTag e declared ++ "/>".toList
      else openTag e declared ++ '>' :: ((d.children n).flatMap text ++
        ("</".toList ++ (e.name.written.toList ++ ['>']))))

variable {d : Document}

/-- What is no element is written alike whatever is in force. -/
theorem writeNode_of_not_element {n : NodeId} (hn : d.element? n = none) (fuel : Nat)
    (scope : List Binding) : d.writeNode (fuel + 1) scope n = d.writeNode 1 [] n := by
  rw [writeNode, writeNode]
  cases hpayload : d.payload n with
  | element e => simp [element?, hpayload] at hn
  | _ => rfl

/-- The text of a node, below start tags with the declarations in force. -/
theorem resolves_writeNode (h : d.Linked)
    (hconsistent : ∀ n < d.size, ∀ e ∈ d.element? n, e.Consistent) : ∀ (fuel : Nat) {n : NodeId}
    {tags : List (List Binding)} {scope : List Binding}, n < d.size → d.size - n ≤ fuel →
    InForce tags scope → d.Resolves tags n (d.writeNode fuel scope n)
  | 0, _, _, _, hn, hfuel, _ => absurd hfuel (Nat.not_le_of_lt (Nat.sub_pos_of_lt hn))
  | fuel + 1, n, tags, scope, hn, hfuel, hforce => by
    cases he : d.element? n with
    | none =>
      rw [writeNode_of_not_element he]
      exact .other he
    | some e =>
      have hcons := hconsistent n hn e he
      have hbelow : ∀ c ∈ d.children n,
          d.Resolves ((declarations scope e).declared :: tags) c
            (d.writeNode fuel (declarations scope e).scope c) := by
        intro c hc
        -- A child has a greater number than its parent, so that the fuel lasts.
        have hlt := h.mem_children_lt hc
        have hless : d.size - c ≤ fuel := by omega
        exact resolves_writeNode h hconsistent fuel hlt.2 hless (hforce.declarations hcons)
      rw [writeNode, element?_eq_some_iff.1 he]
      exact .element he (declarations_sound hcons).1.nodup (namedBelow_declarations hforce hcons)
        hbelow

end Document

/-- Where every element asks for one namespace under each label, on every start tag in the text of
a node no label is declared twice, and looked up through the declarations from there outwards, the
label of the element and those of its attributes that are in a namespace have the namespaces of
the names. The text of a document consists of such texts. -/
theorem written_names_resolve {d : Document} (h : d.Linked)
    (hconsistent : ∀ n < d.size, ∀ e ∈ d.element? n, e.Consistent) :
    (∀ n < d.size, d.Resolves [] n (d.writeNode d.size [] n)) ∧
    ∃ text : NodeId → List Char, (∀ n ∈ d.children root, d.Resolves [] n (text n)) ∧
      d.toXml = String.ofList ((d.children root).flatMap text) := by
  have hresolves : ∀ n < d.size, d.Resolves [] n (d.writeNode d.size [] n) := fun n hn =>
    Document.resolves_writeNode h hconsistent d.size hn (Nat.sub_le _ _) inForce_nil
  exact ⟨hresolves, _, fun n hn => hresolves n (h.mem_children_lt hn).2, d.toXml_eq⟩

/-- A note in a namespace with a plain line. -/
def Document.labelledNote : Document :=
  let d := (Document.empty.appendElement root (.within "urn:n" "x" "note")).1
  let d := d.setAttribute 1 (.within "urn:n" "x" "by") "me"
  (d.appendElement 1 (.plain "line")).1

/-- The note in a box that has its label for another namespace, and a default. -/
def Document.labelledBox : Document :=
  let d := (Document.empty.appendElement root (.within "urn:b" "x" "box")).1
  ((d.bind 1 none "urn:d").graft 1 .labelledNote 1).1

theorem written_names_resolve_of_box :
    Document.labelledBox.toXml = "<x:box xmlns=\"urn:d\" xmlns:x=\"urn:b\">" ++
      "<x:note xmlns:x=\"urn:n\" x:by=\"me\"><line xmlns=\"\"/></x:note></x:box>" ∧
    Document.labelledBox.Linked ∧
    (∀ n < Document.labelledBox.size, ∀ e ∈ Document.labelledBox.element? n, e.Consistent) ∧
    (∀ n < Document.labelledBox.size, Document.labelledBox.Resolves [] n
      (Document.labelledBox.writeNode Document.labelledBox.size [] n)) ∧
    ∃ text : NodeId → List Char,
      (∀ n ∈ Document.labelledBox.children root, Document.labelledBox.Resolves [] n (text n)) ∧
      Document.labelledBox.toXml =
        String.ofList ((Document.labelledBox.children root).flatMap text) := by
  have hnote : Built .labelledNote :=
    ((Built.empty.appendElement (p := root) (.within "urn:n" "x" "note") (by decide)).setAttribute 1
      (.within "urn:n" "x" "by") "me").appendElement (p := 1) (.plain "line") (by decide)
  have hbox := Built.empty.appendElement (p := root) (.within "urn:b" "x" "box") (by decide)
  have hfull : Built .labelledBox :=
    (hbox.bind 1 none "urn:d").graft (p := 1) (n := 1) hnote (by decide) (by decide)
  have hconsistent : ∀ n < Document.labelledBox.size, ∀ e ∈ Document.labelledBox.element? n,
      e.Consistent := by decide +kernel
  exact ⟨by decide +kernel, hfull.linked, hconsistent,
    written_names_resolve hfull.linked hconsistent⟩

/-- An element below a declaration, of which an attribute has the label but no namespace. -/
def Document.looseLabel : Document :=
  let d := (Document.empty.appendElement root (.plain "a")).1
  let d := d.bind 1 (some "p") "urn:p"
  let d := (d.appendElement 1 (.plain "b")).1
  d.setAttribute 2 ⟨none, some "p", "x"⟩ "v"

/-- The label of an attribute that is in no namespace may be declared around it. -/
theorem loose_label_is_found :
    Built .looseLabel ∧
    (∀ n < Document.looseLabel.size, ∀ e ∈ Document.looseLabel.element? n, e.Consistent) ∧
    ∃ outer inner, Document.looseLabel.element? 1 = some outer ∧
      Document.looseLabel.element? 2 = some inner ∧
      Document.looseLabel.toXml.toList = openTag outer [⟨some "p", "urn:p"⟩] ++
        '>' :: (openTag inner [] ++ "/></a>".toList) ∧
      ∃ a ∈ inner.attributes, a.name.label = some "p" ∧
        namespaceBelow [[], [⟨some "p", "urn:p"⟩]] a.name.label ≠ meant a.name.uri := by
  have houter := (Built.empty.appendElement (p := root) (.plain "a") (by decide)).bind 1 (some "p")
    "urn:p"
  have hinner := (houter.appendElement (p := 1) (.plain "b") (by decide)).setAttribute 2
    ⟨none, some "p", "x"⟩ "v"
  exact ⟨hinner, by decide +kernel, _, _, rfl, rfl, by decide +kernel,
    ⟨⟨none, some "p", "x"⟩, "v"⟩, by decide, rfl, by decide⟩

end MarkupRules.Markup
