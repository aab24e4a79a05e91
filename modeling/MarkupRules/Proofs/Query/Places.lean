/-
# The places of a document

The places of a document are its nodes and the attributes of its elements. In document order they
are listed node by node, each with its attributes directly behind it; one place precedes another
if it is listed in front of it. The order of an index, which compares ranks and numbers of
attributes, is the same order. A node-set is a list of places of a document of which each precedes
the next, and it is known from its members.

Key definitions: `Place.IsIn`, `places`, `Precedes`, `IsNodeSet`, `Index.Before`.

Key theorems: `mem_places`, `precedes_iff_before`, `IsNodeSet.ext`.
-/
import Mathlib.Data.List.Sort
import MarkupRules.Proofs.Query.DocumentOrder

namespace MarkupRules.Query

open Markup (Document NodeId)
open Markup.Document (root)

/-! ### The list of all places -/

/-- Whether a place is one of a document: a node of it, or an attribute that its owner has. -/
def Place.IsIn (d : Document) : Place → Prop
  | .node n => n < d.size
  | .attr n i => i < (d.attributes n).length

instance (d : Document) (p : Place) : Decidable (p.IsIn d) :=
  match p with
  | .node n => inferInstanceAs (Decidable (n < d.size))
  | .attr n i => inferInstanceAs (Decidable (i < (d.attributes n).length))

/-- A node and its attributes. -/
def placesAt (d : Document) (n : NodeId) : List Place :=
  .node n :: (List.range (d.attributes n).length).map (.attr n)

/-- All places of a document in document order. -/
def places (d : Document) : List Place :=
  (d.listing root).flatMap (placesAt d)

variable {d : Document}

theorem attributes_eq_nil {n : NodeId} (hn : d.size ≤ n) : d.attributes n = [] := by
  have hpayload : d.payload n = .document := by
    simp [Document.payload, Document.getElem?_eq_none hn]
  simp [Document.attributes, Document.element?, hpayload]

theorem Place.IsIn.owner_lt {p : Place} (hp : p.IsIn d) : p.owner < d.size := by
  cases p with
  | node n => exact hp
  | attr n i =>
    rcases Nat.lt_or_ge n d.size with hn | hn
    · exact hn
    · have hlt : i < (d.attributes n).length := hp
      rw [attributes_eq_nil hn] at hlt
      exact absurd hlt (Nat.not_lt_zero i)

theorem mem_placesAt {n : NodeId} {p : Place} :
    p ∈ placesAt d n ↔ p.owner = n ∧ p.offset ≤ (d.attributes n).length := by
  cases p with
  | node m => simp [placesAt, Place.owner, Place.offset]
  | attr m i =>
    simp only [placesAt, Place.owner, Place.offset, List.mem_cons, List.mem_map, List.mem_range,
      reduceCtorEq, false_or, Place.attr.injEq, Nat.succ_le_iff]
    constructor
    · rintro ⟨j, hj, rfl, rfl⟩
      exact ⟨rfl, hj⟩
    · rintro ⟨rfl, hi⟩
      exact ⟨i, hi, rfl, rfl⟩

/-- Exactly the places of a document are listed. -/
theorem mem_places (h : d.Linked) {p : Place} : p ∈ places d ↔ p.IsIn d := by
  rw [places, List.mem_flatMap]
  constructor
  · rintro ⟨n, hn, hp⟩
    obtain ⟨rfl, hoffset⟩ := mem_placesAt.1 hp
    cases p with
    | node m => exact h.mem_listing_root.1 hn
    | attr m i => exact hoffset
  · intro hp
    refine ⟨p.owner, h.mem_listing_root.2 hp.owner_lt, mem_placesAt.2 ⟨rfl, ?_⟩⟩
    cases p with
    | node m => exact Nat.zero_le _
    | attr m i => exact hp

theorem isIn_root (h : d.Linked) : (Place.node root).IsIn d :=
  h.root_lt

/-! ### The order of an index -/

namespace Index

/-- A place comes before another in the order of an index. -/
def Before (ix : Index) (a b : Place) : Prop :=
  ix.compareOrder a b = .lt

theorem before_iff {ix : Index} {a b : Place} :
    ix.Before a b ↔ ix.rank a.owner < ix.rank b.owner ∨
      ix.rank a.owner = ix.rank b.owner ∧ a.offset < b.offset := by
  rw [Before, compareOrder, orderKey, orderKey]
  dsimp only
  rcases Nat.lt_trichotomy (ix.rank a.owner) (ix.rank b.owner) with hlt | heq | hgt
  · simp [Nat.compare_eq_lt.2 hlt, hlt]
  · simp [heq, Nat.compare_eq_lt]
  · simp [Nat.compare_eq_gt.2 hgt, Nat.lt_asymm hgt, Nat.ne_of_gt hgt]

theorem before_irrefl (ix : Index) (a : Place) : ¬ ix.Before a a := by
  rw [before_iff]
  omega

theorem before_trans {ix : Index} {a b c : Place} (hab : ix.Before a b) (hbc : ix.Before b c) :
    ix.Before a c := by
  rw [before_iff] at *
  omega

theorem before_asymm {ix : Index} {a b : Place} (hab : ix.Before a b) : ¬ ix.Before b a :=
  fun hba => ix.before_irrefl a (before_trans hab hba)

theorem notAfter_iff_not_before {ix : Index} {a b : Place} : ix.notAfter a b ↔ ¬ ix.Before b a := by
  rw [notAfter, keyLe_iff, before_iff, orderKey, orderKey]
  dsimp only
  omega

/-- Places at the same place in the order of an index are the same. -/
theorem orderKey_inj (h : d.Linked) {a b : Place} (ha : a.IsIn d) (hb : b.IsIn d)
    (hkey : (ofDocument d).orderKey a = (ofDocument d).orderKey b) : a = b := by
  rw [orderKey, orderKey, Prod.mk.injEq] at hkey
  have howner := rank_inj h ha.owner_lt hb.owner_lt hkey.1
  have hoffset := hkey.2
  cases a <;> cases b <;> simp_all [Place.owner, Place.offset]

theorem before_total (h : d.Linked) {a b : Place} (ha : a.IsIn d) (hb : b.IsIn d) (hab : a ≠ b) :
    (ofDocument d).Before a b ∨ (ofDocument d).Before b a := by
  have hkey : (ofDocument d).orderKey a ≠ (ofDocument d).orderKey b := fun heq =>
    hab (orderKey_inj h ha hb heq)
  rw [orderKey, orderKey, Ne, Prod.mk.injEq] at hkey
  rw [before_iff, before_iff]
  omega

theorem pairwise_placesAt (ix : Index) (n : NodeId) : (placesAt d n).Pairwise ix.Before := by
  refine List.pairwise_cons.2 ⟨fun p hp => ?_, ?_⟩
  · obtain ⟨i, -, rfl⟩ := List.mem_map.1 hp
    exact before_iff.2 (.inr ⟨rfl, Nat.succ_pos i⟩)
  · rw [List.pairwise_map]
    refine List.pairwise_lt_range.imp fun hij => ?_
    exact before_iff.2 (.inr ⟨rfl, Nat.succ_lt_succ hij⟩)

/-- The places of a document are listed in the order of its index. -/
theorem pairwise_places (h : d.Linked) : (places d).Pairwise (ofDocument d).Before := by
  rw [places, List.pairwise_flatMap]
  refine ⟨fun n _ => pairwise_placesAt _ n, (pairwise_order h).imp fun hrank p hp q hq => ?_⟩
  rw [before_iff, (mem_placesAt.1 hp).1, (mem_placesAt.1 hq).1]
  exact .inl hrank

end Index

/-! ### Document order -/

/-- A place is listed in front of another. -/
def Precedes (d : Document) (a b : Place) : Prop :=
  [a, b].Sublist (places d)

instance (d : Document) : DecidableRel (Precedes d) :=
  fun a b => inferInstanceAs (Decidable ([a, b].Sublist (places d)))

/-- Of two items of a list that is in order, the lesser one stands in front. -/
theorem pair_sublist_iff {α : Type} {R : α → α → Prop} (hasymm : ∀ a b, R a b → ¬ R b a)
    {xs : List α} (hxs : xs.Pairwise R) {a b : α} :
    [a, b].Sublist xs ↔ a ∈ xs ∧ b ∈ xs ∧ R a b := by
  constructor
  · intro hsub
    have hab : [a, b].Pairwise R := hxs.sublist hsub
    exact ⟨hsub.subset (by simp), hsub.subset (by simp), by simpa using hab⟩
  · rintro ⟨ha, hb, hab⟩
    obtain ⟨before, after, rfl⟩ := List.append_of_mem ha
    obtain ⟨-, -, hcross⟩ := List.pairwise_append.1 hxs
    rcases List.mem_append.1 hb with hb | hb
    · exact absurd (hcross b hb a List.mem_cons_self) (hasymm a b hab)
    · rcases List.mem_cons.1 hb with rfl | hb
      · exact absurd hab (hasymm b b hab)
      · have htail : [a, b].Sublist (a :: after) := (List.singleton_sublist.2 hb).cons_cons a
        exact htail.trans (List.sublist_append_right before _)

/-- Document order is the order of the index. -/
theorem precedes_iff_before (h : d.Linked) {a b : Place} :
    Precedes d a b ↔ a.IsIn d ∧ b.IsIn d ∧ (Index.ofDocument d).Before a b := by
  rw [Precedes, pair_sublist_iff (fun _ _ => Index.before_asymm) (Index.pairwise_places h),
    mem_places h, mem_places h]

theorem Precedes.before (h : d.Linked) {a b : Place} (hab : Precedes d a b) :
    (Index.ofDocument d).Before a b :=
  ((precedes_iff_before h).1 hab).2.2

theorem precedes_irrefl (h : d.Linked) (a : Place) : ¬ Precedes d a a :=
  fun haa => Index.before_irrefl _ a (haa.before h)

theorem precedes_asymm (h : d.Linked) {a b : Place} (hab : Precedes d a b) : ¬ Precedes d b a :=
  fun hba => Index.before_asymm (hab.before h) (hba.before h)

/-- A list of places in the order of the index is in document order. -/
theorem pairwise_precedes (h : d.Linked) {ps : List Place} (hin : ∀ p ∈ ps, p.IsIn d)
    (hps : ps.Pairwise (Index.ofDocument d).Before) : ps.Pairwise (Precedes d) :=
  hps.imp_of_mem fun ha hb hab => (precedes_iff_before h).2 ⟨hin _ ha, hin _ hb, hab⟩

/-! ### Node-sets -/

/-- What a node-set of a document is: places of the document of which each precedes the next. -/
structure IsNodeSet (d : Document) (ps : List Place) : Prop where
  /-- All are places of the document. -/
  isIn : ∀ p ∈ ps, p.IsIn d
  /-- They strictly increase in document order. -/
  ascending : ps.Pairwise (Precedes d)

instance (d : Document) (ps : List Place) : Decidable (IsNodeSet d ps) :=
  decidable_of_iff ((∀ p ∈ ps, p.IsIn d) ∧ ps.Pairwise (Precedes d))
    ⟨fun h => ⟨h.1, h.2⟩, fun h => ⟨h.isIn, h.ascending⟩⟩

theorem isNodeSet_nil : IsNodeSet d [] :=
  ⟨by simp, .nil⟩

theorem isNodeSet_singleton {p : Place} (hp : p.IsIn d) : IsNodeSet d [p] :=
  ⟨by simpa using hp, List.pairwise_singleton _ _⟩

theorem isNodeSet_places (h : d.Linked) : IsNodeSet d (places d) :=
  have hin : ∀ p ∈ places d, p.IsIn d := fun _ hp => (mem_places h).1 hp
  ⟨hin, pairwise_precedes h hin (Index.pairwise_places h)⟩

theorem IsNodeSet.sublist {ps qs : List Place} (hqs : IsNodeSet d qs) (hsub : ps.Sublist qs) :
    IsNodeSet d ps :=
  ⟨fun p hp => hqs.isIn p (hsub.subset hp), hqs.ascending.sublist hsub⟩

theorem IsNodeSet.nodup (h : d.Linked) {ps : List Place} (hps : IsNodeSet d ps) : ps.Nodup := by
  refine List.Pairwise.imp (fun {a b} hab => ?_) hps.ascending
  rintro rfl
  exact precedes_irrefl h a hab

/-- Node-sets with the same members are equal. -/
theorem IsNodeSet.ext (h : d.Linked) {ps qs : List Place} (hps : IsNodeSet d ps)
    (hqs : IsNodeSet d qs) (hmem : ∀ p, p ∈ ps ↔ p ∈ qs) : ps = qs :=
  have : Std.Irrefl (Precedes d) := ⟨precedes_irrefl h⟩
  have : Std.Antisymm (Precedes d) := ⟨fun _ _ hab hba => absurd hba (precedes_asymm h hab)⟩
  List.Pairwise.eq_of_mem_iff hps.ascending hqs.ascending hmem

end MarkupRules.Query
