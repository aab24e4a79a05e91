/-
# Unions are unions of sets

The union of two expressions has the nodes of both, each once and in document order. As node-sets
are known from their nodes, it obeys the laws of sets: which of the two comes first makes no
difference, nor in which order three are joined, and joined with itself a node-set stays as it is.
The two sides of such a law are nested differently, so they are compared at a number of levels that
is enough for both; with more levels values stay as they are.

Key definition: `Unites`.

Key theorems: `eval_union_eq_ok_iff`, `unites_of_eval`, `union_obeys_set_laws`.
-/
import MarkupRules.Proofs.Markup.Built
import MarkupRules.Proofs.Query.Dependence
import MarkupRules.Proofs.Query.NodeSets

namespace MarkupRules.Query

open Markup (Built Document)

/-- A node-set of a document with exactly the places of two lists. -/
structure Unites (d : Document) (as bs us : List Place) : Prop where
  /-- It is a node-set of the document. -/
  isNodeSet : IsNodeSet d us
  /-- It has the places of both lists and no others. -/
  mem_iff : ∀ p, p ∈ us ↔ p ∈ as ∨ p ∈ bs

namespace Unites

variable {d : Document} {as bs cs us vs : List Place}

/-- Two lists are united in one way only. -/
theorem unique (h : d.Linked) (hus : Unites d as bs us) (hvs : Unites d as bs vs) : us = vs :=
  IsNodeSet.ext h hus.isNodeSet hvs.isNodeSet fun p => (hus.mem_iff p).trans (hvs.mem_iff p).symm

theorem symm (hus : Unites d as bs us) : Unites d bs as us :=
  ⟨hus.isNodeSet, fun p => (hus.mem_iff p).trans or_comm⟩

theorem self (has : IsNodeSet d as) : Unites d as as as :=
  ⟨has, fun _ => (or_self_iff).symm⟩

/-- Of three lists it makes no difference which two are united first. -/
theorem assoc (h : d.Linked) {abs bcs : List Place} (habs : Unites d as bs abs)
    (hus : Unites d abs cs us) (hbcs : Unites d bs cs bcs) (hvs : Unites d as bcs vs) : us = vs := by
  refine IsNodeSet.ext h hus.isNodeSet hvs.isNodeSet fun p => ?_
  rw [hus.mem_iff, habs.mem_iff, hvs.mem_iff, hbcs.mem_iff, or_assoc]

end Unites

namespace Index

theorem asNodes_eq_ok_iff {v : Value} {ps : List Place} : asNodes v = .ok ps ↔ v = .nodes ps := by
  cases v <;> simp [asNodes]

theorem eval_union_eq_ok_iff {ix : Index} {levels : Nat} {a b : Expr} {focus : Focus}
    {scope : Scope} {v : Value} : ix.eval (levels + 1) (.union a b) focus scope = .ok v ↔
      ∃ as bs, ix.eval levels a focus scope = .ok (.nodes as) ∧
        ix.eval levels b focus scope = .ok (.nodes bs) ∧ v = .nodes (ix.sortUnique (as ++ bs)) := by
  show (do
    let x ← ix.eval levels a focus scope
    let as ← asNodes x
    let y ← ix.eval levels b focus scope
    let bs ← asNodes y
    Except.ok (Value.nodes (ix.sortUnique (as ++ bs)))) = .ok v ↔ _
  constructor
  · intro hv
    obtain ⟨x, hx, hv⟩ := bind_eq_ok_iff.1 hv
    obtain ⟨as, has, hv⟩ := bind_eq_ok_iff.1 hv
    obtain ⟨y, hy, hv⟩ := bind_eq_ok_iff.1 hv
    obtain ⟨bs, hbs, hv⟩ := bind_eq_ok_iff.1 hv
    cases hv
    rw [asNodes_eq_ok_iff.1 has] at hx
    rw [asNodes_eq_ok_iff.1 hbs] at hy
    exact ⟨as, bs, hx, hy, rfl⟩
  · rintro ⟨as, bs, hx, hy, rfl⟩
    exact bind_eq_ok_iff.2 ⟨_, hx, bind_eq_ok_iff.2 ⟨as, rfl, bind_eq_ok_iff.2 ⟨_, hy, rfl⟩⟩⟩

variable {d : Document} {focus : Focus} {scope : Scope}

/-- Putting two lists of places of a document in order unites them. -/
theorem unites_sortUnique (h : d.Linked) {as bs : List Place} (has : ∀ p ∈ as, p.IsIn d)
    (hbs : ∀ p ∈ bs, p.IsIn d) : Unites d as bs ((ofDocument d).sortUnique (as ++ bs)) where
  isNodeSet := isNodeSet_sortUnique h fun p hp => (List.mem_append.1 hp).elim (has p) (hbs p)
  mem_iff p := by rw [mem_sortUnique, List.mem_append]

section

variable (h : d.Linked) (hfocus : focus.place.IsIn d) (hscope : scope.Sound d)

include h hfocus hscope

/-- A union that has a value unites the node-sets that its operands have as their values. -/
theorem unites_of_eval {levels : Nat} {a b : Expr} {v : Value}
    (hv : (ofDocument d).eval levels (.union a b) focus scope = .ok v) :
    ∃ as bs us, (ofDocument d).eval levels a focus scope = .ok (.nodes as) ∧
      (ofDocument d).eval levels b focus scope = .ok (.nodes bs) ∧ v = .nodes us ∧
      Unites d as bs us := by
  cases levels with
  | zero => cases hv
  | succ levels =>
    obtain ⟨as, bs, has, hbs, rfl⟩ := eval_union_eq_ok_iff.1 hv
    have hleft : IsNodeSet d as := eval_sound h hscope levels a focus _ hfocus has
    have hright : IsNodeSet d bs := eval_sound h hscope levels b focus _ hfocus hbs
    exact ⟨as, bs, _, eval_of_more_levels (Nat.le_succ levels) has,
      eval_of_more_levels (Nat.le_succ levels) hbs, rfl,
      unites_sortUnique h hleft.isIn hright.isIn⟩

/-- With one more level than its operands, a union of node-sets has a value. -/
theorem exists_eval_union {levels : Nat} {a b : Expr} {as bs : List Place}
    (has : (ofDocument d).eval levels a focus scope = .ok (.nodes as))
    (hbs : (ofDocument d).eval levels b focus scope = .ok (.nodes bs)) :
    ∃ us, (ofDocument d).eval (levels + 1) (.union a b) focus scope = .ok (.nodes us) ∧
      Unites d as bs us := by
  have hleft : IsNodeSet d as := eval_sound h hscope levels a focus _ hfocus has
  have hright : IsNodeSet d bs := eval_sound h hscope levels b focus _ hfocus hbs
  exact ⟨_, eval_union_eq_ok_iff.2 ⟨as, bs, has, hbs, rfl⟩,
    unites_sortUnique h hleft.isIn hright.isIn⟩

/-- The operands of a union that has a value may change places. -/
theorem eval_union_comm {levels : Nat} {a b : Expr} {v : Value}
    (hv : (ofDocument d).eval levels (.union a b) focus scope = .ok v) :
    (ofDocument d).eval levels (.union b a) focus scope = .ok v := by
  cases levels with
  | zero => cases hv
  | succ levels =>
    obtain ⟨as, bs, has, hbs, rfl⟩ := eval_union_eq_ok_iff.1 hv
    obtain ⟨us, hus, hunites⟩ := exists_eval_union h hfocus hscope has hbs
    obtain ⟨vs, hvs, hback⟩ := exists_eval_union h hfocus hscope hbs has
    rw [← hv, hus, hvs, hback.unique h hunites.symm]

end

/-- At every place of a document that can be built, with variables whose sets of nodes are node-sets
of the document: a union has a value exactly if it has the same one with its operands exchanged,
three operands have the same union however they are grouped, and the union of an operand with itself
has the value of the operand. The value of a union is the node-set with exactly the nodes of its two
operands, and it is there wherever these have node-sets as their values, with a level less. -/
theorem union_obeys_set_laws (hbuilt : Built d) (hfocus : focus.place.IsIn d)
    (hscope : scope.Sound d) (levels : Nat) (a b c : Expr) :
    let value (e : Expr) := (ofDocument d).eval levels e focus scope
    (∀ v, value (.union a b) = .ok v ↔ value (.union b a) = .ok v) ∧
    (∀ v w, value (.union (.union a b) c) = .ok v → value (.union a (.union b c)) = .ok w →
      v = w) ∧
    (∀ v, value (.union a a) = .ok v → value a = .ok v) ∧
    (∀ v, value (.union a b) = .ok v → ∃ as bs us, value a = .ok (.nodes as) ∧
      value b = .ok (.nodes bs) ∧ v = .nodes us ∧ IsNodeSet d us ∧
      ∀ p, p ∈ us ↔ p ∈ as ∨ p ∈ bs) ∧
    ∀ as bs, value a = .ok (.nodes as) → value b = .ok (.nodes bs) →
      ∃ us, (ofDocument d).eval (levels + 1) (.union a b) focus scope = .ok (.nodes us) := by
  intro value
  have h := hbuilt.linked
  have hunites {a b : Expr} {v : Value} (hv : value (.union a b) = .ok v) :=
    unites_of_eval h hfocus hscope hv
  refine ⟨fun v => ⟨eval_union_comm h hfocus hscope, eval_union_comm h hfocus hscope⟩, ?_, ?_, ?_,
    ?_⟩
  · intro v w hv hw
    obtain ⟨abs, cs, us, hab, hc, rfl, hus⟩ := hunites hv
    obtain ⟨as, bs, abs', ha, hb, habs, habs'⟩ := hunites hab
    obtain ⟨as', bcs, vs, ha', hbc, rfl, hvs⟩ := hunites hw
    obtain ⟨bs', cs', bcs', hb', hc', hbcs, hbcs'⟩ := hunites hbc
    cases habs
    cases hbcs
    cases ha.symm.trans ha'
    cases hb.symm.trans hb'
    cases hc.symm.trans hc'
    rw [Unites.assoc h habs' hus hbcs' hvs]
  · intro v hv
    obtain ⟨as, as', us, ha, ha', rfl, hus⟩ := hunites hv
    cases ha.symm.trans ha'
    have hset : IsNodeSet d as := eval_sound h hscope levels a focus _ hfocus ha
    rw [hus.unique h (.self hset)]
    exact ha
  · intro v hv
    obtain ⟨as, bs, us, ha, hb, hvalue, hus⟩ := hunites hv
    exact ⟨as, bs, us, ha, hb, hvalue, hus.isNodeSet, hus.mem_iff⟩
  · intro as bs ha hb
    obtain ⟨us, hus, -⟩ := exists_eval_union h hfocus hscope ha hb
    exact ⟨us, hus⟩

/-- On the shelf, the books, all attributes, and a variable that holds the first book and the
comment: the identifier of the first book comes directly behind it, and the book comes once. -/
theorem union_obeys_set_laws_on_shelf :
    let a : Expr := .path .root [.anywhere, .mk .child (.name none "book") []]
    let b : Expr := .path .root [.anywhere, .mk .attr .anyName []]
    let c : Expr := .varRef "v"
    let scope : Scope := Scope.empty.push "v" (.nodes [.node 2, .node 4])
    let value (e : Expr) := (ofDocument .shelf).eval 3 e (.single (.node 5)) scope
    let joined : Value := .nodes [.node 2, .attr 2 0, .node 4, .node 5]
    scope.Sound .shelf ∧
      value (.union (.union a b) c) = .ok joined ∧ value (.union c (.union a b)) = .ok joined ∧
      ∀ w, value (.union a (.union b c)) = .ok w → w = joined := by
  intro a b c scope value joined
  have hscope : scope.Sound .shelf := by
    intro x hx
    obtain rfl := List.mem_singleton.1 hx
    have hset : IsNodeSet .shelf [.node 2, .node 4] := by decide
    exact hset
  have hfocus : (Focus.single (.node 5)).place.IsIn .shelf := by decide
  have hvalue : value (.union (.union a b) c) = .ok joined := rfl
  have hcomm := (union_obeys_set_laws Markup.built_shelf hfocus hscope 3 (.union a b) c c).1
  have hassoc := (union_obeys_set_laws Markup.built_shelf hfocus hscope 3 a b c).2.1
  exact ⟨hscope, hvalue, (hcomm joined).1 hvalue, fun w hw => (hassoc joined w hvalue hw).symm⟩

end Index

end MarkupRules.Query
