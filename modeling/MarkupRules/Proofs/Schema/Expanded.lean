/-
# Expanded schemas

In an expanded schema nothing is abstract and nothing refers to an abstract rule or pattern.
Whatever expansion puts together is such a schema, because an element is only put there when it has
been looked at, and substitution does not make an element abstract that was not. An expanded schema
is expanded as it is.

Key definitions: `IsConcrete`, `IsExpanded`, `Steady`.

Key theorems: `expandTree_concrete`, `expandTree_of_concrete`, `expansion_reaches_normal_form`.
-/
import MarkupRules.Proofs.Markup.Settled
import MarkupRules.Proofs.Markup.WellFormed
import MarkupRules.Proofs.Query.Places
import MarkupRules.Proofs.Schema.Cycles
import MarkupRules.Proofs.Schema.References

namespace MarkupRules.Schema

open Markup (Attribute Document Element Payload Tree)
open Markup.Tree (OfElements ofElements_leaf subtreesOfAll mem_subtreesOfAll mem_subtrees)

/-! ### What is concrete -/

/-- An element that is no abstract rule or pattern and refers to none. -/
structure IsConcrete (e : Element) : Prop where
  /-- It is no abstract rule or pattern. -/
  notAbstract : e.name.isIn uri "rule" ∨ e.name.isIn uri "pattern" →
    e.attribute? "abstract" ≠ some "true"
  /-- It is no instance of an abstract pattern. -/
  notInstance : e.name.isIn uri "pattern" → e.attribute? "is-a" = none
  /-- It extends no abstract rule. -/
  notExtension : e.name.isIn uri "extends" → e.attribute? "rule" = none

instance (e : Element) : Decidable (IsConcrete e) :=
  decidable_of_iff
    ((e.name.isIn uri "rule" ∨ e.name.isIn uri "pattern" → e.attribute? "abstract" ≠ some "true") ∧
      (e.name.isIn uri "pattern" → e.attribute? "is-a" = none) ∧
      (e.name.isIn uri "extends" → e.attribute? "rule" = none))
    ⟨fun ⟨h, h', h''⟩ => ⟨h, h', h''⟩, fun h => ⟨h.notAbstract, h.notInstance, h.notExtension⟩⟩

/-- A schema of concrete elements. -/
def IsExpanded (schema : Tree) : Prop :=
  ∀ s ∈ schema.subtrees, ∀ e ∈ s.element?, IsConcrete e

instance (schema : Tree) : Decidable (IsExpanded schema) :=
  inferInstanceAs (Decidable (∀ s ∈ schema.subtrees, ∀ e ∈ s.element?, IsConcrete e))

/-- Nothing in a forest is declared abstract by a value with a dollar sign. -/
def Steady (ts : List Tree) : Prop :=
  ∀ s ∈ subtreesOfAll ts, ∀ e ∈ s.element?, ∀ a ∈ e.attributes,
    a.isPlain "abstract" → '$' ∉ a.value.toList

section Steady

variable {t : Tree} {ts : List Tree}

theorem steady_cons : Steady (t :: ts) ↔ Steady [t] ∧ Steady ts := by
  simp only [Steady, subtreesOfAll, List.append_nil, List.forall_mem_append]

theorem Steady.below {x : Payload} (h : Steady [.node x ts]) : Steady ts := fun s hs =>
  h s (mem_subtreesOfAll.2 ⟨_, List.mem_cons_self, mem_subtrees.2 (.inr hs)⟩)

theorem Steady.top {e : Element} (h : Steady [.node (.element e) ts]) :
    ∀ a ∈ e.attributes, a.isPlain "abstract" → '$' ∉ a.value.toList :=
  h (.node (.element e) ts)
    (mem_subtreesOfAll.2 ⟨_, List.mem_cons_self, Markup.Tree.self_mem_subtrees _⟩) e rfl

/-- So it is in a document if it is so for the attributes of its nodes. -/
theorem steady_tree {d : Document}
    (h : ∀ n, ∀ a ∈ d.attributes n, a.isPlain "abstract" → '$' ∉ a.value.toList) :
    Steady [d.tree] := by
  intro s hs e he a ha
  obtain ⟨t, ht, hs⟩ := mem_subtreesOfAll.1 hs
  rw [List.mem_singleton.1 ht] at hs
  obtain ⟨m, hm⟩ := Document.payload_of_mem_subtrees hs
  have helement : d.element? m = some e := by
    rw [Document.element?, ← hm]
    exact he
  exact h m a (by rwa [Document.attributes, helement])

/-- What references lead to stands in the schema. -/
theorem Steady.content {schema : Tree} (h : Steady [schema]) {r : Abstraction} {content : List Tree}
    (hr : (Abstractions.ofSchema schema).content? r = some content) : Steady content := by
  obtain ⟨t, ht, -, rfl⟩ := exists_of_content? hr
  intro s hs
  have hinside : s ∈ schema.subtrees :=
    Markup.Tree.subtrees_trans (mem_subtrees.2 (.inr hs)) schema (mem_subtrees.2 (.inr ht))
  exact h s (mem_subtreesOfAll.2 ⟨schema, List.mem_cons_self, hinside⟩)

end Steady

/-! ### Elements that are put together -/

section Elements

variable {e : Element} {parameters : List (String × String)}

theorem substituteIn_nil (e : Element) : substituteIn [] e = e := by
  simp [substituteIn, substitute_nil]

theorem attribute?_substituteIn (localPart : String) :
    (substituteIn parameters e).attribute? localPart =
      (e.attribute? localPart).map (substitute parameters) := by
  have hplain : ((fun a : Attribute => a.isPlain localPart) ∘ fun a : Attribute =>
      { a with value := substitute parameters a.value }) = fun a => a.isPlain localPart := rfl
  rw [substituteIn, Element.attribute?, List.find?_map, hplain, Element.attribute?, Option.map_map,
    Option.map_map]
  rfl

/-- Substitution leaves it open neither whether an element is abstract nor what it refers to. -/
theorem IsConcrete.substituteIn (h : IsConcrete e)
    (hsteady : ∀ a ∈ e.attributes, a.isPlain "abstract" → '$' ∉ a.value.toList) :
    IsConcrete (Schema.substituteIn parameters e) where
  notAbstract hkind := by
    rw [attribute?_substituteIn]
    intro habstract
    obtain ⟨value, hvalue, hsame⟩ := Option.map_eq_some_iff.1 habstract
    obtain ⟨a, ha, rfl⟩ := Option.map_eq_some_iff.1 hvalue
    have hplain : '$' ∉ a.value.toList :=
      hsteady a (List.mem_of_find?_eq_some ha) (by simpa using List.find?_some ha)
    rw [substitute_of_notMem hplain] at hsame
    exact h.notAbstract hkind (by rw [hvalue, hsame])
  notInstance hkind := by rw [attribute?_substituteIn, h.notInstance hkind, Option.map_none]
  notExtension hkind := by rw [attribute?_substituteIn, h.notExtension hkind, Option.map_none]

theorem attribute?_withoutAttribute (localPart : String) :
    (e.withoutAttribute localPart).attribute? localPart = none := by
  simp [Element.withoutAttribute, Element.attribute?]

theorem attribute?_withoutAttribute_of_ne {localPart other : String} (h : localPart ≠ other) :
    (e.withoutAttribute other).attribute? localPart = e.attribute? localPart := by
  unfold Element.withoutAttribute Element.attribute?
  rw [List.find?_filter]
  congr 2
  funext a
  by_cases hplain : a.isPlain localPart
  · have hother : a.isPlain other = false := by
      unfold Attribute.isPlain at hplain ⊢
      simp_all
    simp [hplain, hother]
  · simp [hplain]

/-- Without its reference, an instance of an abstract pattern is concrete. -/
theorem withoutInstance (hpattern : e.name.isIn uri "pattern")
    (habstract : e.name.isIn uri "rule" ∨ e.name.isIn uri "pattern" →
      e.attribute? "abstract" ≠ some "true") : IsConcrete (e.withoutAttribute "is-a") where
  notAbstract hkind := by
    rw [attribute?_withoutAttribute_of_ne (by decide)]
    exact habstract hkind
  notInstance _ := attribute?_withoutAttribute "is-a"
  notExtension hkind :=
    absurd (@isTerm_unique (.node (.element e) []) _ _ hkind hpattern) (by decide)

end Elements

/-! ### Whatever is put together is concrete -/

/-- A step that makes concrete elements of steady forests. -/
def MakesConcrete (deeper : Expander) : Prop :=
  ∀ parameters active content out, Steady content →
    deeper parameters active content = .ok out → ∀ t ∈ out, OfElements IsConcrete t

section Walk

variable {a : Abstractions} {deeper : Expander} {parameters : List (String × String)}
  {active : List Abstraction}

theorem enter_steady (ha : ∀ r content, a.content? r = some content → Steady content)
    {r : Abstraction} {content : List Tree} (h : a.enter active r = .ok content) :
    Steady content :=
  ha r content (enter_eq_ok_iff.1 h).1

mutual

/-- What is made of a steady tree is concrete. -/
theorem expandTree_concrete (ha : ∀ r content, a.content? r = some content → Steady content)
    (hdeeper : MakesConcrete deeper) : ∀ (t : Tree) {parameters : List (String × String)}
    {active : List Abstraction} {out : List Tree}, Steady [t] →
    expandTree a deeper parameters active t = .ok out → ∀ s ∈ out, OfElements IsConcrete s
  | .node .document below, _, _, _, hsteady, h => by
    rw [expandTree] at h
    exact expandAll_concrete ha hdeeper below hsteady.below h
  | .node (.text s) below, _, _, _, _, h => by
    cases h
    exact ofElements_leaf (by simp) (by simp)
  | .node (.comment s) below, _, _, _, _, h => by
    cases h
    exact ofElements_leaf (by simp) (by simp)
  | .node (.instruction target s) below, _, _, _, _, h => by
    cases h
    exact ofElements_leaf (by simp) (by simp)
  | .node (.element e) below, parameters, active, out, hsteady, h => by
    rw [expandTree] at h
    split at h
    · cases h
      exact nofun
    · next hkept =>
      have hconcrete : e.name.isIn uri "rule" ∨ e.name.isIn uri "pattern" →
          e.attribute? "abstract" ≠ some "true" := fun hkind habstract =>
        hkept (Bool.and_eq_true_iff.2 ⟨Bool.or_eq_true_iff.2 hkind, beq_iff_eq.2 habstract⟩)
      split at h
      · next target htarget =>
        obtain ⟨content, hcontent, h⟩ := bind_eq_ok_iff.1 h
        obtain ⟨given, -, h⟩ := bind_eq_ok_iff.1 h
        obtain ⟨own, hown, h⟩ := bind_eq_ok_iff.1 h
        obtain ⟨inherited, hinherited, h⟩ := bind_eq_ok_iff.1 h
        cases h
        have hpattern : e.name.isIn uri "pattern" := by
          by_contra hnot
          exact nomatch (if_neg hnot).symm.trans htarget
        have hown' := expandOwn_concrete ha hdeeper below hsteady.below hown
        have hinherited' := hdeeper _ _ _ _ (enter_steady ha hcontent) hinherited
        exact List.forall_mem_singleton.2 (.element (withoutInstance hpattern hconcrete)
          (List.forall_mem_append.2 ⟨hown', hinherited'⟩))
      · next hinstance =>
        split at h
        · next id hid =>
          obtain ⟨content, hcontent, h⟩ := bind_eq_ok_iff.1 h
          exact hdeeper _ _ _ _ (enter_steady ha hcontent) h
        · next hextension =>
          obtain ⟨inside, hinside, h⟩ := bind_eq_ok_iff.1 h
          cases h
          -- The element is neither dropped nor a reference, and so concrete as it stands.
          have hplain : IsConcrete e := by
            refine ⟨hconcrete, fun hkind => ?_, fun hkind => ?_⟩
            · exact (if_pos hkind).symm.trans hinstance
            · exact (if_pos hkind).symm.trans hextension
          exact List.forall_mem_singleton.2 (.element (hplain.substituteIn hsteady.top)
            (expandAll_concrete ha hdeeper below hsteady.below hinside))

theorem expandAll_concrete (ha : ∀ r content, a.content? r = some content → Steady content)
    (hdeeper : MakesConcrete deeper) : ∀ (ts : List Tree) {parameters : List (String × String)}
    {active : List Abstraction} {out : List Tree}, Steady ts →
    expandAll a deeper parameters active ts = .ok out → ∀ s ∈ out, OfElements IsConcrete s
  | [], _, _, _, _, h => by
    cases h
    exact nofun
  | t :: rest, _, _, _, hsteady, h => by
    obtain ⟨ht, hrest⟩ := steady_cons.1 hsteady
    rw [expandAll] at h
    obtain ⟨here, hhere, h⟩ := bind_eq_ok_iff.1 h
    obtain ⟨more, hmore, h⟩ := bind_eq_ok_iff.1 h
    cases h
    exact List.forall_mem_append.2 ⟨expandTree_concrete ha hdeeper t ht hhere,
      expandAll_concrete ha hdeeper rest hrest hmore⟩

theorem expandOwn_concrete (ha : ∀ r content, a.content? r = some content → Steady content)
    (hdeeper : MakesConcrete deeper) : ∀ (ts : List Tree) {active : List Abstraction}
    {out : List Tree}, Steady ts → expandOwn a deeper active ts = .ok out →
    ∀ s ∈ out, OfElements IsConcrete s
  | [], _, _, _, h => by
    cases h
    exact nofun
  | t :: rest, _, _, hsteady, h => by
    obtain ⟨ht, hrest⟩ := steady_cons.1 hsteady
    rw [expandOwn] at h
    split at h
    · rw [ok_bind] at h
      obtain ⟨more, hmore, h⟩ := bind_eq_ok_iff.1 h
      cases h
      exact expandOwn_concrete ha hdeeper rest hrest hmore
    · obtain ⟨here, hhere, h⟩ := bind_eq_ok_iff.1 h
      obtain ⟨more, hmore, h⟩ := bind_eq_ok_iff.1 h
      cases h
      exact List.forall_mem_append.2 ⟨expandTree_concrete ha hdeeper t ht hhere,
        expandOwn_concrete ha hdeeper rest hrest hmore⟩

end

/-- Whatever is put together on some levels is concrete. -/
theorem expandAt_concrete (ha : ∀ r content, a.content? r = some content → Steady content) :
    ∀ levels : Nat, MakesConcrete (expandAt a levels)
  | 0 => fun _ _ _ _ _ h => nomatch h
  | levels + 1 => fun _ _ content _ hsteady h =>
    expandAll_concrete ha (expandAt_concrete ha levels) content hsteady h

/-! ### What is concrete stays as it is -/

theorem expandAll_eq_self : ∀ {ts : List Tree},
    (∀ t ∈ ts, expandTree a deeper parameters active t = .ok [t]) →
    expandAll a deeper parameters active ts = .ok ts
  | [], _ => rfl
  | t :: ts, h => by
    obtain ⟨ht, hts⟩ := List.forall_mem_cons.1 h
    rw [expandAll, ht, ok_bind, expandAll_eq_self hts, ok_bind, List.singleton_append]

/-- A tree of concrete elements is expanded as it is. -/
theorem expandTree_of_concrete {t : Tree} (h : OfElements IsConcrete t) :
    expandTree a deeper [] active t = .ok [t] := by
  induction h with
  | @element e ts he _ ih =>
    have hkept : ¬ ((e.name.isIn uri "rule" || e.name.isIn uri "pattern") &&
        e.attribute? "abstract" == some "true") := fun habstract =>
      have ⟨hkind, htrue⟩ := Bool.and_eq_true_iff.1 habstract
      he.notAbstract (Bool.or_eq_true_iff.1 hkind) (beq_iff_eq.1 htrue)
    have hinstance : (if e.name.isIn uri "pattern" then e.attribute? "is-a" else none) = none :=
      ite_eq_right_iff.2 he.notInstance
    have hextension : (if e.name.isIn uri "extends" then e.attribute? "rule" else none) = none :=
      ite_eq_right_iff.2 he.notExtension
    have hbelow : expandAll a deeper [] active ts = .ok ts := expandAll_eq_self ih
    rw [expandTree]
    split
    · next habstract => exact absurd habstract hkept
    · split
      · next hsome => exact nomatch hinstance.symm.trans hsome
      · split
        · next hsome => exact nomatch hextension.symm.trans hsome
        · rw [hbelow, ok_bind, substituteIn_nil]
  | @leaf x hdocument helement =>
    cases x with
    | document => exact absurd rfl hdocument
    | element e => exact absurd rfl (helement e)
    | text s => rfl
    | comment s => rfl
    | instruction target s => rfl

end Walk

/-! ### Schemas -/

theorem expand_eq_ok_iff {schema out : Document} : expand schema = .ok out ↔
    ∃ forest, expandAt (.ofSchema schema.tree) ((Abstractions.ofSchema schema.tree).size + 1) [] []
      [schema.tree] = .ok forest ∧ Document.ofForest forest = out := by
  unfold expand
  rw [bind_eq_ok_iff]
  exact exists_congr fun forest => and_congr_right fun _ => by simp

/-- A schema of concrete elements, below a document node, is planted again. -/
theorem expand_of_concrete {schema : Document} {ts : List Tree}
    (hschema : schema.tree = .node .document ts) (hts : ∀ t ∈ ts, OfElements IsConcrete t) :
    expand schema = .ok (Document.ofForest ts) := by
  refine expand_eq_ok_iff.2 ⟨ts, ?_, rfl⟩
  rw [hschema, expandAt, expandAll, expandTree]
  rw [expandAll_eq_self fun t ht => expandTree_of_concrete (hts t ht), ok_bind, expandAll, ok_bind,
    List.append_nil]

/-- Nothing abstract and no reference to something abstract is left in an expanded schema, if no
dollar sign stands where something is declared abstract, and expanded again it stays as it is. So
does every schema in which there is nothing of the kind, if its nodes stand as those of a text do.
What is built has links that fit and one document node (`Built.linked`, `Built.rooted`). -/
theorem expansion_reaches_normal_form (schema : Document) :
    ((∀ n, ∀ a ∈ schema.attributes n, a.isPlain "abstract" → '$' ∉ a.value.toList) →
      ∀ out, expand schema = .ok out →
        IsExpanded out.tree ∧ ∃ again, expand out = .ok again ∧ again.tree = out.tree) ∧
    (schema.Linked → schema.Rooted → schema.Shaped → IsExpanded schema.tree →
      ∃ out, expand schema = .ok out ∧ out.tree = schema.tree) := by
  constructor
  · intro hsteady out h
    have hsteady' : Steady [schema.tree] := steady_tree hsteady
    obtain ⟨ts, hexpand, rfl⟩ := expand_eq_ok_iff.1 h
    have hts : ∀ t ∈ ts, OfElements IsConcrete t :=
      expandAt_concrete (fun _ _ => hsteady'.content) _ _ _ _ _ hsteady' hexpand
    refine ⟨Document.of_mem_tree_ofForest hts, _,
      expand_of_concrete (Document.tree_ofForest ts) (Markup.Tree.ofElements_settleAll hts nofun), ?_⟩
    exact Document.tree_ofForest_settleAll ts
  · intro hlinked hrooted hshaped hexpanded
    have hforest : ∀ t ∈ schema.forest Document.root, OfElements IsConcrete t :=
      hshaped.ofElements_forest hlinked hrooted fun s hs =>
        hexpanded s (mem_subtrees.2 (.inr hs))
    exact ⟨_, expand_of_concrete (hshaped.tree_eq hlinked) hforest,
      hshaped.tree_ofForest_forest hlinked hrooted⟩

/-- A schema in which an abstract rule with character data is extended behind other character
data. -/
def roughSchema : Document where
  nodes := #[
    ⟨.document, none, #[1]⟩,
    ⟨.element ⟨⟨some uri, none, "schema"⟩, [], [⟨none, uri⟩]⟩, some 0, #[2, 3, 5, 6]⟩,
    ⟨.text "a", some 1, #[]⟩,
    ⟨.element
      { name := ⟨some uri, none, "rule"⟩
        attributes := [⟨.plain "abstract", "true"⟩, ⟨.plain "id", "r"⟩]
        bindings := [] }, some 1, #[4]⟩,
    ⟨.text "b", some 3, #[]⟩,
    ⟨.text "c", some 1, #[]⟩,
    ⟨.element ⟨⟨some uri, none, "extends"⟩, [⟨.plain "rule", "r"⟩], []⟩, some 1, #[]⟩]
  origin := none

/-- The schema without the abstract rule, which extends nothing. -/
def evenSchema : Document where
  nodes := #[
    ⟨.document, none, #[1]⟩,
    ⟨.element ⟨⟨some uri, none, "schema"⟩, [], [⟨none, uri⟩]⟩, some 0, #[2]⟩,
    ⟨.text "acb", some 1, #[]⟩]
  origin := none

theorem expansion_reaches_normal_form_of_rough :
    let rough := "<schema xmlns='http://purl.oclc.org/dsdl/schematron'>" ++
      "a<rule abstract='true' id='r'>b</rule>c<extends rule='r'/></schema>"
    let even := "<schema xmlns='http://purl.oclc.org/dsdl/schematron'>acb</schema>"
    (Document.read rough none = .ok roughSchema ∧ ∃ out, expand roughSchema = .ok out ∧
      IsExpanded out.tree ∧ ∃ again, expand out = .ok again ∧ again.tree = out.tree) ∧
    (Document.read even none = .ok evenSchema ∧ IsExpanded evenSchema.tree ∧
      ∃ out, expand evenSchema = .ok out ∧ out.tree = evenSchema.tree) := by
  intro rough even
  have hrough : Document.read rough none = .ok roughSchema := by decide +kernel
  have heven : Document.read even none = .ok evenSchema := by decide +kernel
  have hsteady : ∀ n, ∀ a ∈ roughSchema.attributes n, a.isPlain "abstract" →
      '$' ∉ a.value.toList := by
    intro n a ha
    have hlt : n < roughSchema.size := by
      refine Nat.lt_of_not_le fun hle => ?_
      rw [Query.attributes_eq_nil hle] at ha
      cases ha
    have hall : ∀ n < roughSchema.size, ∀ a ∈ roughSchema.attributes n, a.isPlain "abstract" →
        '$' ∉ a.value.toList := by decide +kernel
    exact hall n hlt a ha
  have hexpanded : IsExpanded evenSchema.tree := by decide +kernel
  have hformed : evenSchema.WellFormed := .of_read heven
  exact ⟨⟨hrough, _, rfl, (expansion_reaches_normal_form roughSchema).1 hsteady _ rfl⟩,
    heven, hexpanded,
    (expansion_reaches_normal_form evenSchema).2 hformed.linked (Document.rooted_of_read heven)
      hformed.shaped hexpanded⟩

end MarkupRules.Schema
