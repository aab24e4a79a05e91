/-
# Images under new numbers of nodes

Where a document is another one with its nodes renumbered, every place has an image, and a value
or a variable has one with it. The ranks in document order are the same ranks, so sorting gives the
images in the same order; an axis leads from the image of a place to the images of the places to
which it leads; and what is read off a place or a value is read off its image.

Key definitions: `Place.image`, `Value.image`, `Scope.image`, `Scope.Within`, `ImageOf`,
`ValueImage`, `ScopeImage`.

Key theorems: `orderKey_image`, `sortUnique_image`, `along_image`, `passes_image`, `textOf_image`,
`compareValues_image`, `identified_image`.
-/
import Mathlib.Data.List.Find
import MarkupRules.Proofs.Markup.Renumbered
import MarkupRules.Proofs.Query.NodeSets

namespace MarkupRules.Query

open Markup (Document NodeId)
open Markup.Document (Renumbered root)

/-! ### Images -/

/-- A place under the new number of its node. -/
def Place.image (f : NodeId → NodeId) : Place → Place
  | .node n => .node (f n)
  | .attr n i => .attr (f n) i

/-- A value under new numbers of nodes. -/
def Value.image (f : NodeId → NodeId) : Value → Value
  | .nodes ps => .nodes (ps.map (Place.image f))
  | v => v

/-- Variables with values under new numbers of nodes. -/
def Scope.image (f : NodeId → NodeId) (s : Scope) : Scope :=
  ⟨s.bindings.map fun b => (b.1, b.2.image f)⟩

/-- All nodes of a value are places of a document. -/
def Value.Within (d : Document) : Value → Prop
  | .nodes ps => ∀ p ∈ ps, p.IsIn d
  | _ => True

/-- All nodes in the values of variables are places of a document. -/
def Scope.Within (d : Document) (s : Scope) : Prop :=
  ∀ b ∈ s.bindings, b.2.Within d

/-- The second place is the image of the first, which is a place of the document. -/
def ImageOf (f : NodeId → NodeId) (d : Document) (p q : Place) : Prop :=
  p.IsIn d ∧ q = p.image f

/-- The second value is the image of the first. -/
inductive ValueImage (f : NodeId → NodeId) (d : Document) : Value → Value → Prop where
  /-- Nodes of the document have images. -/
  | nodes {ps qs : List Place} (h : List.Forall₂ (ImageOf f d) ps qs) :
    ValueImage f d (.nodes ps) (.nodes qs)
  /-- A truth value is its own image. -/
  | truth (b : Bool) : ValueImage f d (.truth b) (.truth b)
  /-- A number is its own image. -/
  | number (x : Float) : ValueImage f d (.number x) (.number x)
  /-- A text is its own image. -/
  | text (s : String) : ValueImage f d (.text s) (.text s)

/-- The second variables are the images of the first. -/
def ScopeImage (f : NodeId → NodeId) (d : Document) (s t : Scope) : Prop :=
  List.Forall₂ (fun b c => b.1 = c.1 ∧ ValueImage f d b.2 c.2) s.bindings t.bindings

/-- The second focus is the image of the first. -/
structure FocusImage (f : NodeId → NodeId) (d : Document) (x y : Focus) : Prop where
  /-- The context node. -/
  place : ImageOf f d x.place y.place
  /-- Its number. -/
  position : x.position = y.position
  /-- How many nodes there are. -/
  size : x.size = y.size

variable {f : NodeId → NodeId} {d d' : Document}

theorem map_node_image (f : NodeId → NodeId) (ns : List NodeId) :
    (ns.map Place.node).map (Place.image f) = (ns.map f).map Place.node := by
  rw [List.map_map, List.map_map]
  rfl

theorem forall₂_image_iff {ps qs : List Place} :
    List.Forall₂ (ImageOf f d) ps qs ↔ (∀ p ∈ ps, p.IsIn d) ∧ qs = ps.map (Place.image f) :=
  forall₂_and_eq_iff

theorem ValueImage.eq_image {v w : Value} (h : ValueImage f d v w) : w = v.image f := by
  cases h with
  | nodes hps => rw [Value.image, (forall₂_image_iff.1 hps).2]
  | truth b => rfl
  | number x => rfl
  | text s => rfl

theorem valueImage {v : Value} (hv : v.Within d) : ValueImage f d v (v.image f) := by
  cases v with
  | nodes ps => exact .nodes (forall₂_image_iff.2 ⟨hv, rfl⟩)
  | truth b => exact .truth b
  | number x => exact .number x
  | text s => exact .text s

theorem scopeImage {s : Scope} (hs : s.Within d) : ScopeImage f d s (s.image f) := by
  refine List.forall₂_map_right_iff.2 (List.forall₂_same.2 fun b hb => ⟨rfl, ?_⟩)
  exact valueImage (hs b hb)

theorem ScopeImage.get? {s t : Scope} (h : ScopeImage f d s t) (name : String) :
    Option.Rel (ValueImage f d) (s.get? name) (t.get? name) := by
  obtain ⟨bs⟩ := s
  obtain ⟨cs⟩ := t
  change List.Forall₂ _ bs cs at h
  unfold Scope.get?
  induction h with
  | nil => exact .none
  | @cons b c bs cs hbc _ ih =>
    rw [List.find?_cons, List.find?_cons, ← hbc.1]
    split
    · exact .some hbc.2
    · exact ih

theorem ScopeImage.push {s t : Scope} (h : ScopeImage f d s t) (name : String) {v w : Value}
    (hv : ValueImage f d v w) : ScopeImage f d (s.push name v) (t.push name w) :=
  .cons ⟨rfl, hv⟩ h

theorem truthOf_image {v w : Value} (hv : ValueImage f d v w) : truthOf w = truthOf v := by
  cases hv with
  | nodes hps => cases hps <;> rfl
  | truth b => rfl
  | number x => rfl
  | text s => rfl

/-! ### Document order -/

section Images

variable (h : Renumbered f d d') (hd : d.Linked) (hd' : d'.Linked)

include h

theorem Place.image_isIn {p : Place} (hp : p.IsIn d) : (p.image f).IsIn d' := by
  cases p with
  | node n => exact h.lt_size n hp
  | attr n i =>
    have hsame : d'.attributes (f n) = d.attributes n := h.attributes_eq hp.owner_lt
    change i < (d'.attributes (f n)).length
    rw [hsame]
    exact hp

theorem Place.image_inj {p q : Place} (hp : p.IsIn d) (hq : q.IsIn d)
    (heq : p.image f = q.image f) : p = q := by
  cases p with
  | node n =>
    cases q with
    | node m => rw [h.inj n m hp hq (Place.node.inj heq)]
    | attr m j => cases heq
  | attr n i =>
    cases q with
    | node m => cases heq
    | attr m j =>
      obtain ⟨howner, rfl⟩ := Place.attr.inj heq
      rw [h.inj n m hp.owner_lt hq.owner_lt howner]

namespace Index

theorem attribute?_image {n : NodeId} (hn : n < d.size) (i : Nat) :
    (ofDocument d').attribute? (f n) i = (ofDocument d).attribute? n i :=
  congrArg (·[i]?) (h.attributes_eq hn)

theorem placeName?_image {p q : Place} (hp : ImageOf f d p q) :
    (ofDocument d').placeName? q = (ofDocument d).placeName? p := by
  obtain ⟨hin, rfl⟩ := hp
  cases p with
  | node n =>
    have hsame : (ofDocument d').doc.payload (f n) = (ofDocument d).doc.payload n :=
      h.payload n hin
    rw [Place.image, placeName?, placeName?, hsame]
  | attr n i =>
    have hn : n < d.size := hin.owner_lt
    rw [Place.image, placeName?, placeName?, attribute?_image h hn]

theorem passes_image (axis : Axis) (test : NodeTest) {p q : Place} (hp : ImageOf f d p q) :
    (ofDocument d').passes axis test q = (ofDocument d).passes axis test p := by
  have hprincipal : (ofDocument d').principalName? axis q =
      (ofDocument d).principalName? axis p := by
    have hname := placeName?_image h hp
    obtain ⟨hin, rfl⟩ := hp
    cases p with
    | node n =>
      have hsame : (ofDocument d').doc.name? (f n) = (ofDocument d).doc.name? n :=
        h.name?_eq hin
      cases axis <;> first | exact hsame | rfl
    | attr n i => cases axis <;> first | exact hname | rfl
  obtain ⟨hin, rfl⟩ := hp
  cases p with
  | node n =>
    have hsame : (ofDocument d').doc.payload (f n) = (ofDocument d).doc.payload n :=
      h.payload n hin
    cases test <;> simp only [passes, Place.image, hsame] at hprincipal ⊢ <;> rw [hprincipal]
  | attr n i => cases test <;> simp only [passes, Place.image] at hprincipal ⊢ <;> rw [hprincipal]

include hd

theorem siblings_image {n : NodeId} (hn : n < d.size) :
    (ofDocument d').siblings (f n) = ((ofDocument d).siblings n).map f := by
  rcases hp : d.parent? n with _ | p
  · have hp' : d'.parent? (f n) = none := by rw [h.parent n hn, hp, Option.map_none]
    rw [siblings_eq_nil hp, siblings_eq_nil hp', List.map_nil]
  · have hp' : d'.Over (f p) (f n) := by rw [Document.Over, h.parent n hn, hp, Option.map_some]
    have hlt : p < d.size := Nat.lt_trans (hd.lt_of_parent? hp) hn
    rw [siblings_eq_children hp, siblings_eq_children hp', h.children p hlt]

/-- The siblings of a node are none, or one part, the node and another part, and the images of the
parts are those of its image. -/
theorem siblings_parts {n : NodeId} (hn : n < d.size) :
    ((ofDocument d).siblings n = [] ∧ (ofDocument d').siblings (f n) = []) ∨
    ∃ before after, (ofDocument d).siblings n = before ++ n :: after ∧ n ∉ before ∧
      (ofDocument d').siblings (f n) = before.map f ++ f n :: after.map f ∧
      f n ∉ before.map f := by
  have himage := siblings_image h hd hn
  rcases siblings_cases hd n with ⟨hnil, -⟩ | ⟨before, after, hsiblings, hbefore, -⟩
  · exact .inl ⟨hnil, by rw [himage, hnil, List.map_nil]⟩
  · refine .inr ⟨before, after, hsiblings, hbefore, ?_, fun hmem => ?_⟩
    · rw [himage, hsiblings, List.map_append, List.map_cons]
    · obtain ⟨m, hm, heq⟩ := List.mem_map.1 hmem
      have hin : m ∈ (ofDocument d).siblings n := by
        rw [hsiblings]
        exact List.mem_append_left _ hm
      have hlt : m < d.size := hd.mem_listing_root.1 ((siblings_sublist hd n).subset hin)
      obtain rfl : m = n := h.inj m n hlt hn heq
      exact hbefore hm

include hd'

theorem order_image : (ofDocument d').order = (ofDocument d).order.map f := by
  have hroot := h.listing_eq hd hd' hd.root_lt
  rwa [h.top, ← order_ofDocument hd', ← order_ofDocument hd] at hroot

theorem rank_image {n : Nat} (hn : n < d.size) :
    (ofDocument d').rank (f n) = (ofDocument d).rank n := by
  refine rank_of_order_getElem? hd' ?_
  have hat := order_getElem?_rank hd hn
  rw [← order_ofDocument hd', order_image h hd hd', order_ofDocument hd, List.getElem?_map, hat,
    Option.map_some]

theorem lastRank_image {n : Nat} (hn : n < d.size) :
    (ofDocument d').lastRank (f n) = (ofDocument d).lastRank n := by
  have hlast := lastRank_add_one hd hn
  have hlast' := lastRank_add_one hd' (h.lt_size n hn)
  rw [h.listing_eq hd hd' hn, List.length_map, rank_image h hd hd' hn] at hlast'
  omega

theorem orderKey_image {p : Place} (hp : p.IsIn d) :
    (ofDocument d').orderKey (p.image f) = (ofDocument d).orderKey p := by
  cases p with
  | node n => exact congrArg (·, 0) (rank_image h hd hd' hp)
  | attr n i => exact congrArg (·, i + 1) (rank_image h hd hd' hp.owner_lt)

theorem precedes_image {p q : Place} (hpq : Precedes d p q) :
    Precedes d' (p.image f) (q.image f) := by
  obtain ⟨hp, hq, hbefore⟩ := (precedes_iff_before hd).1 hpq
  refine (precedes_iff_before hd').2 ⟨Place.image_isIn h hp, Place.image_isIn h hq, ?_⟩
  rwa [Before, compareOrder, orderKey_image h hd hd' hp, orderKey_image h hd hd' hq]

theorem isNodeSet_image {ps : List Place} (hps : IsNodeSet d ps) :
    IsNodeSet d' (ps.map (Place.image f)) := by
  refine ⟨fun q hq => ?_, List.pairwise_map.2 (hps.ascending.imp (precedes_image h hd hd'))⟩
  obtain ⟨p, hp, rfl⟩ := List.mem_map.1 hq
  exact Place.image_isIn h (hps.isIn p hp)

/-- Sorting the images gives the images in the order of the places. -/
theorem sortUnique_image {ps qs : List Place} (hps : List.Forall₂ (ImageOf f d) ps qs) :
    List.Forall₂ (ImageOf f d) ((ofDocument d).sortUnique ps) ((ofDocument d').sortUnique qs) := by
  obtain ⟨hin, rfl⟩ := forall₂_image_iff.1 hps
  have hset := isNodeSet_sortUnique hd hin
  refine forall₂_image_iff.2 ⟨hset.isIn, ?_⟩
  refine IsNodeSet.ext hd' (isNodeSet_sortUnique hd' fun q hq => ?_)
    (isNodeSet_image h hd hd' hset) fun q => ?_
  · obtain ⟨p, hp, rfl⟩ := List.mem_map.1 hq
    exact Place.image_isIn h (hin p hp)
  · rw [mem_sortUnique, List.mem_map, List.mem_map]
    exact exists_congr fun p => and_congr_left fun _ => mem_sortUnique.symm

/-! ### Axes -/

theorem ancestors_image {p : Place} (hp : p.IsIn d) :
    (ofDocument d').ancestors (p.image f) = ((ofDocument d).ancestors p).map f := by
  cases p with
  | node n => rw [Place.image, ancestors_node hd, ancestors_node hd', h.ancestors_eq hd hd' hp]
  | attr n i =>
    have hn : n < d.size := hp.owner_lt
    rw [Place.image, ancestors_attr, ancestors_attr, h.ancestors_eq hd hd' hn, List.map_cons]

theorem followingRank_image {p : Place} (hp : p.IsIn d) :
    (ofDocument d').followingRank (p.image f) = (ofDocument d).followingRank p := by
  cases p with
  | node n => exact congrArg (· + 1) (lastRank_image h hd hd' hp)
  | attr n i => exact congrArg (· + 1) (rank_image h hd hd' hp.owner_lt)

omit hd hd' in
theorem parent?_image {p : Place} (hp : p.IsIn d) :
    (ofDocument d').parent? (p.image f) = ((ofDocument d).parent? p).map f := by
  cases p with
  | node n => exact h.parent n hp
  | attr n i => rfl

theorem rank_owner_image {p : Place} (hp : p.IsIn d) :
    (ofDocument d').rank (p.image f).owner = (ofDocument d).rank p.owner :=
  (Prod.mk.inj (orderKey_image h hd hd' hp)).1

/-- An axis leads from the image of a place to the images of the places to which it leads. -/
theorem along_image (axis : Axis) {p q : Place} (hpq : ImageOf f d p q) :
    List.Forall₂ (ImageOf f d) ((ofDocument d).along axis p) ((ofDocument d').along axis q) := by
  obtain ⟨hp, rfl⟩ := hpq
  refine forall₂_image_iff.2 ⟨fun q hq => isIn_of_mem_along hd hp hq, ?_⟩
  match axis, p, hp with
  | .self, _, _ => rfl
  | .child, .node n, hn =>
    have hchildren : (ofDocument d').doc.children (f n) = ((ofDocument d).doc.children n).map f :=
      h.children n hn
    rw [Place.image, along, along, map_node_image, hchildren]
  | .child, .attr _ _, _ => rfl
  | .descendant, .node n, hn =>
    have hbelow : (ofDocument d').doc.descendants (f n) =
        ((ofDocument d).doc.descendants n).map f := h.descendants_eq hd hd' hn
    rw [Place.image, along, along, map_node_image, hbelow]
  | .descendant, .attr _ _, _ => rfl
  | .descendantOrSelf, .node n, hn =>
    have hbelow : (ofDocument d').doc.descendants (f n) =
        ((ofDocument d).doc.descendants n).map f := h.descendants_eq hd hd' hn
    rw [Place.image, along, along, List.map_cons, map_node_image, hbelow]
    rfl
  | .descendantOrSelf, .attr _ _, _ => rfl
  | .parent, p, hp => rw [along, along, map_node_image, parent?_image h hp, Option.toList_map]
  | .ancestor, p, hp => rw [along, along, map_node_image, ancestors_image h hd hd' hp]
  | .ancestorOrSelf, p, hp =>
    rw [along, along, List.map_cons, map_node_image, ancestors_image h hd hd' hp]
  | .followingSibling, .node n, hn =>
    rw [Place.image, along, along, map_node_image]
    rcases siblings_parts h hd hn with
      ⟨hnil, hnil'⟩ | ⟨before, after, hparts, hn, hparts', hn'⟩
    · rw [hnil, hnil']
      rfl
    · rw [hparts, hparts', dropWhile_ne_append hn, dropWhile_ne_append hn']
  | .followingSibling, .attr _ _, _ => rfl
  | .precedingSibling, .node n, hn =>
    rw [Place.image, along, along, map_node_image]
    rcases siblings_parts h hd hn with
      ⟨hnil, hnil'⟩ | ⟨before, after, hparts, hn, hparts', hn'⟩
    · rw [hnil, hnil']
      rfl
    · rw [hparts, hparts', takeWhile_ne_append hn, takeWhile_ne_append hn', ← List.map_reverse]
  | .precedingSibling, .attr _ _, _ => rfl
  | .following, p, hp =>
    rw [along, along, map_node_image, order_image h hd hd', followingRank_image h hd hd' hp,
      ← List.map_drop]
  | .preceding, p, hp =>
    rw [along, along, map_node_image, rank_owner_image h hd hd' hp, order_image h hd hd',
      ← List.map_take, ← List.map_reverse, List.filter_map]
    -- The filter asks for the last rank below a node, which is kept for nodes of the document.
    refine congrArg (fun ns => (ns.map f).map Place.node) (List.filter_congr fun m hm => ?_)
    have hlt : m < d.size := by
      rw [List.mem_reverse, order_ofDocument hd] at hm
      exact hd.mem_listing_root.1 (List.mem_of_mem_take hm)
    rw [Function.comp_apply, lastRank_image h hd hd' hlt]
  | .attr, .node n, hn =>
    have hattributes : (ofDocument d').doc.attributes (f n) = (ofDocument d).doc.attributes n :=
      h.attributes_eq hn
    rw [Place.image, along, along, List.map_map, hattributes]
    rfl
  | .attr, .attr _ _, _ => rfl
  | .nameScope, _, _ => rfl

/-! ### What is read off values -/

theorem placeText_image {p q : Place} (hpq : ImageOf f d p q) :
    (ofDocument d').placeText q = (ofDocument d).placeText p := by
  obtain ⟨hp, rfl⟩ := hpq
  cases p with
  | node n => exact h.stringValue_eq hd hd' hp
  | attr n i =>
    have hn : n < d.size := hp.owner_lt
    rw [Place.image, placeText, placeText, attribute?_image h hn]

theorem textOf_image {v w : Value} (hv : ValueImage f d v w) :
    (ofDocument d').textOf w = (ofDocument d).textOf v := by
  cases hv with
  | nodes hps =>
    cases hps with
    | nil => rfl
    | cons hp _ => exact placeText_image h hd hd' hp
  | truth b => rfl
  | number x => rfl
  | text s => rfl

theorem numberOf_image {v w : Value} (hv : ValueImage f d v w) :
    (ofDocument d').numberOf w = (ofDocument d).numberOf v := by
  have htext := textOf_image h hd hd' hv
  cases hv with
  | nodes hps => rw [numberOf, numberOf, htext]
  | truth b => rw [numberOf, numberOf]
  | number x => rw [numberOf, numberOf]
  | text s => rw [numberOf, numberOf]

theorem textsOf_image {v w : Value} (hv : ValueImage f d v w) :
    (ofDocument d').textsOf w = (ofDocument d).textsOf v := by
  cases hv with
  | nodes hps => exact map_eq_of_forall₂ hps fun _ _ hp => placeText_image h hd hd' hp
  | truth b => rfl
  | number x => rfl
  | text s => rfl

theorem total_image {ps qs : List Place} (hps : List.Forall₂ (ImageOf f d) ps qs) :
    (ofDocument d').total qs = (ofDocument d).total ps := by
  have htexts : qs.map (ofDocument d').placeText = ps.map (ofDocument d).placeText :=
    map_eq_of_forall₂ hps fun _ _ hp => placeText_image h hd hd' hp
  have htotal : ∀ (ix : Index) (ps : List Place), ix.total ps =
      (ps.map ix.placeText).foldl (fun sum text => sum + Decimal.ofNumeral text) (-0.0) :=
    fun ix ps => by rw [total, List.foldl_map]
  rw [htotal, htotal, htexts]

theorem equalAtoms_image {v w v' w' : Value} (hv : ValueImage f d v v')
    (hw : ValueImage f d w w') :
    (ofDocument d').equalAtoms v' w' = (ofDocument d).equalAtoms v w := by
  have htext := textOf_image h hd hd' hv
  have htext' := textOf_image h hd hd' hw
  have hnumber := numberOf_image h hd hd' hv
  have hnumber' := numberOf_image h hd hd' hw
  have htruth := truthOf_image hv
  have htruth' := truthOf_image hw
  cases hv <;> cases hw <;>
    simp only [equalAtoms, htext, htext', hnumber, hnumber', htruth, htruth']

theorem compareAtoms_image (op : Comparison) {v w v' w' : Value} (hv : ValueImage f d v v')
    (hw : ValueImage f d w w') :
    (ofDocument d').compareAtoms op v' w' = (ofDocument d).compareAtoms op v w := by
  cases op <;> simp only [compareAtoms, equalAtoms_image h hd hd' hv hw,
    numberOf_image h hd hd' hv, numberOf_image h hd hd' hw]

theorem atoms_image (op : Comparison) {v w : Value} (hv : ValueImage f d v w) :
    List.Forall₂ (ValueImage f d) ((ofDocument d).orderAtoms op ((ofDocument d).atoms v))
      ((ofDocument d').orderAtoms op ((ofDocument d').atoms w)) := by
  have hatoms : List.Forall₂ (ValueImage f d) ((ofDocument d).atoms v)
      ((ofDocument d').atoms w) := by
    cases hv with
    | nodes hps =>
      refine List.forall₂_map_left_iff.2 (List.forall₂_map_right_iff.2 (hps.imp fun p q hpq => ?_))
      rw [placeText_image h hd hd' hpq]
      exact .text _
    | truth b => exact .cons (.truth b) .nil
    | number x => exact .cons (.number x) .nil
    | text s => exact .cons (.text s) .nil
  unfold orderAtoms
  split
  · exact hatoms
  · refine List.forall₂_map_left_iff.2 (List.forall₂_map_right_iff.2
      (hatoms.imp fun v w hvw => ?_))
    rw [numberOf_image h hd hd' hvw]
    exact .number _

theorem compareValues_image (op : Comparison) {v w v' w' : Value} (hv : ValueImage f d v v')
    (hw : ValueImage f d w w') :
    (ofDocument d').compareValues op v' w' = (ofDocument d).compareValues op v w := by
  have hany := any_eq_of_forall₂ (atoms_image h hd hd' op hv) fun x x' hx =>
    any_eq_of_forall₂ (atoms_image h hd hd' op hw) fun y y' hy =>
      compareAtoms_image h hd hd' op hx hy
  have htruth := truthOf_image hv
  have htruth' := truthOf_image hw
  cases hv <;> cases hw <;> first
    | exact hany
    | rw [compareValues, compareValues, htruth]
      exact compareAtoms_image h hd hd' op (.truth _) (.truth _)
    | rw [compareValues, compareValues, htruth']
      exact compareAtoms_image h hd hd' op (.truth _) (.truth _)

theorem identified_image {v w : Value} (hv : ValueImage f d v w) :
    List.Forall₂ (ImageOf f d) ((ofDocument d).identified v) ((ofDocument d').identified w) := by
  have hbelow : ∀ m ∈ d.descendants root, m < d.size := fun m hm =>
    Document.Linked.lt_size_of_above (hd.mem_descendants.1 hm)
  have hfind : (ofDocument d').doc.identifiedIn? ((ofDocument d').doc.descendants root) =
      fun word => ((ofDocument d).doc.identifiedIn? (d.descendants root) word).map f := by
    funext word
    have hroot : (ofDocument d').doc.descendants root = (d.descendants root).map f := by
      have himage := h.descendants_eq hd hd' hd.root_lt
      rwa [h.top] at himage
    rw [Document.identifiedIn?, Document.identifiedIn?, hroot, List.find?_map]
    refine congrArg (Option.map f) (List.find?_congr fun m hm => ?_)
    have hattributes : (ofDocument d').doc.attributes (f m) = (ofDocument d).doc.attributes m :=
      h.attributes_eq (hbelow m hm)
    rw [Function.comp_apply, hattributes]
  unfold identified
  refine sortUnique_image h hd hd' (forall₂_image_iff.2 ⟨fun p hp => ?_, ?_⟩)
  · obtain ⟨n, hn, rfl⟩ := List.mem_map.1 hp
    obtain ⟨word, -, hword⟩ := List.mem_filterMap.1 hn
    exact hbelow n (List.mem_of_find?_eq_some hword)
  · rw [textsOf_image h hd hd' hv, hfind, ← List.map_filterMap, List.map_map, List.map_map]
    rfl

theorem language?_image {n : NodeId} (hn : n < d.size) :
    (ofDocument d').language? (f n) = (ofDocument d).language? n := by
  have habove : (ofDocument d').doc.ancestors (f n) = ((ofDocument d).doc.ancestors n).map f :=
    h.ancestors_eq hd hd' hn
  have hlt : ∀ m ∈ n :: d.ancestors n, m < d.size := by
    rintro m (_ | ⟨_, hm⟩)
    · exact hn
    · exact Nat.lt_trans (hd.lt_of_above (hd.mem_ancestors.1 hm)) hn
  rw [language?, language?, habove, ← List.map_cons, List.findSome?_map,
    ← List.head?_filterMap, ← List.head?_filterMap]
  refine congrArg List.head? (List.filterMap_congr fun m hm => ?_)
  have hattributes : (ofDocument d').doc.attributes (f m) = (ofDocument d).doc.attributes m :=
    h.attributes_eq (hlt m hm)
  rw [Function.comp_apply, hattributes]

end Index

end Images

end MarkupRules.Query
