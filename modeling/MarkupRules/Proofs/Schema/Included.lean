/-
# Included schemas

A schema in which all references to other documents are resolved holds none: what is left of an
element is left because it refers to nothing. Such a schema refers to nothing in any files and
under any locator, so resolving its references leaves it as it is.

Key definitions: `IsResolved`, `IsIncluded`.

Key theorems: `includeTree_resolved`, `includeTree_of_resolved`, `inclusion_reaches_normal_form`.
-/
import MarkupRules.Proofs.Markup.Settled
import MarkupRules.Proofs.Markup.WellFormed
import MarkupRules.Proofs.Steps
import MarkupRules.Schema.Inclusion

namespace MarkupRules.Schema

open Markup (Document Element Tree)
open Markup.Tree (OfElements mem_subtrees ofElements_leaf)

/-! ### What refers to no document -/

/-- An element that does not refer to another document. -/
structure IsResolved (e : Element) : Prop where
  /-- It includes nothing. -/
  notInclude : ¬ e.name.isIn uri "include"
  /-- It extends nothing by a reference. -/
  notExtension : e.name.isIn uri "extends" → e.attribute? "href" = none

instance (e : Element) : Decidable (IsResolved e) :=
  decidable_of_iff
    (¬ e.name.isIn uri "include" ∧ (e.name.isIn uri "extends" → e.attribute? "href" = none))
    ⟨fun ⟨h, h'⟩ => ⟨h, h'⟩, fun h => ⟨h.notInclude, h.notExtension⟩⟩

/-- A schema without references to other documents. -/
def IsIncluded (schema : Tree) : Prop :=
  ∀ s ∈ schema.subtrees, ∀ e ∈ s.element?, IsResolved e

instance (schema : Tree) : Decidable (IsIncluded schema) :=
  inferInstanceAs (Decidable (∀ s ∈ schema.subtrees, ∀ e ∈ s.element?, IsResolved e))

/-! ### Whatever is put together refers to no document -/

/-- A walk that leaves no references. -/
def MakesResolved (deeper : Includer) : Prop :=
  ∀ d active content out, deeper d active content = .ok out → ∀ t ∈ out, OfElements IsResolved t

section Walk

variable {files : Files} {deeper : Includer} {d : Document} {active : List String}

mutual

/-- What a tree is resolved to refers to no document. -/
theorem includeTree_resolved (hdeeper : MakesResolved deeper) : ∀ (t : Tree) {out : List Tree},
    includeTree files deeper d active t = .ok out → ∀ s ∈ out, OfElements IsResolved s
  | .node .document below, _, h => by
    rw [includeTree] at h
    exact includeAll_resolved hdeeper below h
  | .node (.text s) below, _, h => by
    cases h
    exact ofElements_leaf (by simp) (by simp)
  | .node (.comment s) below, _, h => by
    cases h
    exact ofElements_leaf (by simp) (by simp)
  | .node (.instruction target s) below, _, h => by
    cases h
    exact ofElements_leaf (by simp) (by simp)
  | .node (.element e) below, out, h => by
    rw [includeTree] at h
    split at h
    · split at h
      · cases h
      · obtain ⟨target, -, h⟩ := bind_eq_ok_iff.1 h
        exact hdeeper _ _ _ _ h
    · next hinclude =>
      split at h
      · obtain ⟨target, -, h⟩ := bind_eq_ok_iff.1 h
        exact hdeeper _ _ _ _ h
      · next hextension =>
        obtain ⟨inside, hinside, h⟩ := bind_eq_ok_iff.1 h
        cases h
        have hresolved : IsResolved e :=
          ⟨hinclude, fun hkind => (if_pos hkind).symm.trans hextension⟩
        exact List.forall_mem_singleton.2
          (.element hresolved (includeAll_resolved hdeeper below hinside))

theorem includeAll_resolved (hdeeper : MakesResolved deeper) :
    ∀ (ts : List Tree) {out : List Tree}, includeAll files deeper d active ts = .ok out →
    ∀ s ∈ out, OfElements IsResolved s
  | [], _, h => by
    cases h
    exact nofun
  | t :: rest, _, h => by
    rw [includeAll] at h
    obtain ⟨here, hhere, h⟩ := bind_eq_ok_iff.1 h
    obtain ⟨more, hmore, h⟩ := bind_eq_ok_iff.1 h
    cases h
    exact List.forall_mem_append.2
      ⟨includeTree_resolved hdeeper t hhere, includeAll_resolved hdeeper rest hmore⟩

end

/-- Whatever is put together on some levels refers to no document. -/
theorem includeAt_resolved : ∀ levels : Nat, MakesResolved (includeAt files levels)
  | 0 => fun _ _ _ _ h => nomatch h
  | levels + 1 => fun _ _ content _ h => includeAll_resolved (includeAt_resolved levels) content h

/-! ### What refers to no document stays as it is -/

theorem includeAll_eq_self : ∀ {ts : List Tree},
    (∀ t ∈ ts, includeTree files deeper d active t = .ok [t]) →
    includeAll files deeper d active ts = .ok ts
  | [], _ => rfl
  | t :: ts, h => by
    obtain ⟨ht, hts⟩ := List.forall_mem_cons.1 h
    rw [includeAll, ht, ok_bind, includeAll_eq_self hts, ok_bind, List.singleton_append]

/-- A tree that refers to no document is taken as it is. -/
theorem includeTree_of_resolved {t : Tree} (h : OfElements IsResolved t) :
    includeTree files deeper d active t = .ok [t] := by
  induction h with
  | @element e ts he _ ih =>
    have hextension : (if e.name.isIn uri "extends" then e.attribute? "href" else none) = none :=
      ite_eq_right_iff.2 he.notExtension
    have hbelow : includeAll files deeper d active ts = .ok ts := includeAll_eq_self ih
    rw [includeTree, if_neg he.notInclude]
    split
    · next hsome => exact nomatch hextension.symm.trans hsome
    · rw [hbelow, ok_bind]
  | @leaf x hdocument helement =>
    cases x with
    | document => exact absurd rfl hdocument
    | element e => exact absurd rfl (helement e)
    | text s => rfl
    | comment s => rfl
    | instruction target s => rfl

end Walk

/-! ### Schemas -/

section Schemas

variable {files : Files} {schema out : Document}

theorem resolveReferences_eq_ok_iff : resolveReferences files schema = .ok out ↔
    ∃ forest, includeAt files (chainLimit files schema + 1) schema schema.origin.toList
      [schema.tree] = .ok forest ∧ Document.ofForest forest = out := by
  unfold resolveReferences
  rw [bind_eq_ok_iff]
  exact exists_congr fun forest => and_congr_right fun _ => by simp

/-- A schema that refers to no document, below a document node, is planted again. -/
theorem resolveReferences_of_resolved {ts : List Tree} (hschema : schema.tree = .node .document ts)
    (hts : ∀ t ∈ ts, OfElements IsResolved t) :
    resolveReferences files schema = .ok (Document.ofForest ts) := by
  refine resolveReferences_eq_ok_iff.2 ⟨ts, ?_, rfl⟩
  rw [hschema, includeAt, includeAll, includeTree]
  rw [includeAll_eq_self fun t ht => includeTree_of_resolved (hts t ht), ok_bind, includeAll,
    ok_bind, List.append_nil]

end Schemas

/-- No reference to another document is left in a schema with its references resolved, and under
any locator and whatever the files it stays as it is. So does every schema in which there is no such
reference, if its nodes stand as those of a text do. -/
theorem inclusion_reaches_normal_form (files : Files) (schema : Document) :
    (∀ out, resolveReferences files schema = .ok out →
      IsIncluded out.tree ∧ ∀ files' origin, ∃ again,
        resolveReferences files' (out.withOrigin origin) = .ok again ∧ again.tree = out.tree) ∧
    (schema.Linked → schema.Rooted → schema.Shaped → IsIncluded schema.tree →
      ∃ out, resolveReferences files schema = .ok out ∧ out.tree = schema.tree) := by
  constructor
  · intro out h
    obtain ⟨ts, hts, rfl⟩ := resolveReferences_eq_ok_iff.1 h
    have hts : ∀ t ∈ ts, OfElements IsResolved t := includeAt_resolved _ _ _ _ _ hts
    refine ⟨Document.of_mem_tree_ofForest hts, fun files' origin => ?_⟩
    have htree : ((Document.ofForest ts).withOrigin origin).tree =
        .node .document (Markup.Tree.settleAll [] ts) := by
      rw [(Document.linked_ofForest ts).tree_withOrigin, Document.tree_ofForest]
    exact ⟨_, resolveReferences_of_resolved htree (Markup.Tree.ofElements_settleAll hts nofun),
      Document.tree_ofForest_settleAll ts⟩
  · intro hlinked hrooted hshaped hincluded
    have hforest : ∀ t ∈ schema.forest Document.root, OfElements IsResolved t :=
      hshaped.ofElements_forest hlinked hrooted fun s hs =>
        hincluded s (mem_subtrees.2 (.inr hs))
    exact ⟨_, resolveReferences_of_resolved (hshaped.tree_eq hlinked) hforest,
      hshaped.tree_ofForest_forest hlinked hrooted⟩

/-- A schema with character data around a reference to a rule. -/
def scatteredSchema : Document where
  nodes := #[
    ⟨.document, none, #[1]⟩,
    ⟨.element ⟨⟨some uri, none, "schema"⟩, [], [⟨none, uri⟩]⟩, some 0, #[2, 3, 4]⟩,
    ⟨.text "a", some 1, #[]⟩,
    ⟨.element ⟨⟨some uri, none, "extends"⟩, [⟨.plain "href", "rule.sch"⟩], []⟩, some 1, #[]⟩,
    ⟨.text "c", some 1, #[]⟩]
  origin := some "a.sch"

/-- A file with a rule that holds character data. -/
def ruleFiles : Files :=
  ⟨.directory [("rule.sch",
    .file (some "<rule xmlns='http://purl.oclc.org/dsdl/schematron'>b</rule>"))], []⟩

theorem inclusion_reaches_normal_form_of_scattered :
    let scattered := "<schema xmlns='http://purl.oclc.org/dsdl/schematron'>" ++
      "a<extends href='rule.sch'/>c</schema>"
    let shelf := "<shelf><book id='a'>x</book><!--y--><book/></shelf>"
    (Document.read scattered (some "a.sch") = .ok scatteredSchema ∧
      ∃ out, resolveReferences ruleFiles scatteredSchema = .ok out ∧
        IsIncluded out.tree ∧ ∀ files origin, ∃ again,
          resolveReferences files (out.withOrigin origin) = .ok again ∧ again.tree = out.tree) ∧
    (Document.read shelf none = .ok .shelf ∧ IsIncluded Document.shelf.tree ∧
      ∃ out, resolveReferences ruleFiles .shelf = .ok out ∧ out.tree = Document.shelf.tree) := by
  intro scattered shelf
  have hscattered : Document.read scattered (some "a.sch") = .ok scatteredSchema := by decide +kernel
  have hshelf : Document.read shelf none = .ok .shelf := by decide +kernel
  have hincluded : IsIncluded Document.shelf.tree := by decide +kernel
  have hresolve : resolveReferences ruleFiles scatteredSchema = .ok (.ofForest [
      .node (.element ⟨⟨some uri, none, "schema"⟩, [], [⟨none, uri⟩]⟩)
        [.node (.text "a") [], .node (.text "b") [], .node (.text "c") []]]) := by
    rw [← toOption_eq_some_iff]
    decide +kernel
  have hformed : Document.shelf.WellFormed := .of_read hshelf
  exact ⟨⟨hscattered, _, hresolve,
      (inclusion_reaches_normal_form ruleFiles scatteredSchema).1 _ hresolve⟩,
    hshelf, hincluded,
    (inclusion_reaches_normal_form ruleFiles .shelf).2 hformed.linked
      (Document.rooted_of_read hshelf) hformed.shaped hincluded⟩

end MarkupRules.Schema
