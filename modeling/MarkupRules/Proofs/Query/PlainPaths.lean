/-
# Paths sort once as well as after each step

A step often finds a place many times, and what it finds is put in order, each place once, before
the next step goes on from there. That saves work and changes nothing: a step goes on from every
place by itself, so the same places are found if everything is handed on as it comes, and only the
end of the path is put in order. For a path without steps there is no such end; what the parser
makes of one is a single place.

Key definitions: `Index.followPlain`, `Index.plainPath`, `Alike`.

Key theorems: `Index.follow_alike_plain`, `Index.isNodeSet_of_follow`, `Index.path_sorts_once`.
-/
import MarkupRules.Proofs.Query.Compiled
import MarkupRules.Proofs.Query.Patterns

namespace MarkupRules.Query

open Markup (Built Document)
open Markup.Document (root)

/-! ### The same items -/

/-- Two results with the same items, in whatever order and number: both are there, or neither. -/
structure Alike {ε α : Type} (r s : Except ε (List α)) : Prop where
  /-- Both are there, or neither. -/
  ok_iff : (∃ as, r = .ok as) ↔ ∃ bs, s = .ok bs
  /-- What is in one of them is in the other. -/
  mem_iff : ∀ {as bs}, r = .ok as → s = .ok bs → ∀ x, x ∈ as ↔ x ∈ bs

/-- What is collected from the same items is alike. -/
theorem Collects.alike {ε α β : Type} {f : α → Except ε (List β)} {xs : List α}
    {r s : Except ε (List β)} (hr : Collects f xs r) (hs : Collects f xs s) : Alike r s where
  ok_iff := hr.ok_iff.trans hs.ok_iff.symm
  mem_iff has hbs y := (hr.mem_iff has y).trans (hs.mem_iff hbs y).symm

/-- Chains are alike if they go on alike from results that are alike. -/
theorem Alike.bind {ε α β : Type} {r s : Except ε (List α)} (h : Alike r s)
    {f g : List α → Except ε (List β)}
    (hfg : ∀ as bs, (∀ x, x ∈ as ↔ x ∈ bs) → Alike (f as) (g bs)) : Alike (r >>= f) (s >>= g) := by
  refine ⟨⟨?_, ?_⟩, ?_⟩
  · rintro ⟨found, hfound⟩
    obtain ⟨as, has, hfound⟩ := bind_eq_ok_iff.1 hfound
    obtain ⟨bs, hbs⟩ := h.ok_iff.1 ⟨as, has⟩
    obtain ⟨other, hother⟩ := (hfg as bs (h.mem_iff has hbs)).ok_iff.1 ⟨found, hfound⟩
    exact ⟨other, bind_eq_ok_iff.2 ⟨bs, hbs, hother⟩⟩
  · rintro ⟨other, hother⟩
    obtain ⟨bs, hbs, hother⟩ := bind_eq_ok_iff.1 hother
    obtain ⟨as, has⟩ := h.ok_iff.2 ⟨bs, hbs⟩
    obtain ⟨found, hfound⟩ := (hfg as bs (h.mem_iff has hbs)).ok_iff.2 ⟨other, hother⟩
    exact ⟨found, bind_eq_ok_iff.2 ⟨as, has, hfound⟩⟩
  · intro found other hfound hother
    obtain ⟨as, has, hfound⟩ := bind_eq_ok_iff.1 hfound
    obtain ⟨bs, hbs, hother⟩ := bind_eq_ok_iff.1 hother
    exact (hfg as bs (h.mem_iff has hbs)).mem_iff hfound hother

namespace Index

/-! ### Paths without sorting -/

/-- The places that steps select, each as often as it is found and in the order in which it is
found. -/
def followPlain (ix : Index) (sub : Evaluator) (scope : Scope) :
    List Step → List Place → Except QueryError (List Place)
  | [], ps => .ok ps
  | s :: steps, ps => do
    let found ← ix.stepFromAll sub scope s ps
    followPlain ix sub scope steps found

/-- The places that a path selects, found without any sorting. -/
def plainPath (ix : Index) (sub : Evaluator) (start : Start) (steps : List Step) (focus : Focus)
    (scope : Scope) : Except QueryError (List Place) := do
  let ps ← startPlaces sub focus scope start
  ix.followPlain sub scope steps ps

variable {ix : Index} {sub : Evaluator} {scope : Scope} {d : Document}

/-- From lists with the same places a step finds the same places. -/
theorem stepFromAll_alike (s : Step) {ps qs : List Place} (hmem : ∀ p, p ∈ ps ↔ p ∈ qs) :
    Alike (ix.stepFromAll sub scope s ps) (ix.stepFromAll sub scope s qs) :=
  have hqs : Collects (ix.stepFrom sub scope s) ps (ix.stepFromAll sub scope s qs) :=
    (stepFromAll_collects qs).congr_mem fun p => (hmem p).symm
  (stepFromAll_collects ps).alike hqs

/-- Steps find the same places whether or not what they find is sorted on the way. -/
theorem follow_alike_plain : ∀ (steps : List Step) {ps qs : List Place},
    (∀ p, p ∈ ps ↔ p ∈ qs) →
      Alike (ix.follow sub scope steps ps) (ix.followPlain sub scope steps qs)
  | [], ps, qs, hmem => by
    refine ⟨⟨fun _ => ⟨qs, rfl⟩, fun _ => ⟨ps, rfl⟩⟩, fun has hbs => ?_⟩
    cases has
    cases hbs
    exact hmem
  | s :: steps, ps, qs, hmem => by
    unfold follow followPlain
    -- From here on one side goes on from a sorted list, the other from the list as it was found.
    refine (stepFromAll_alike s hmem).bind fun as bs hsame => follow_alike_plain steps fun p => ?_
    rw [mem_sortUnique]
    exact hsame p

/-! ### The end of a path -/

/-- Steps, if there are any, end at a node-set, in whatever order the places are where they
start. -/
theorem isNodeSet_of_follow (h : d.Linked) {steps : List Step} (hsteps : steps ≠ [])
    {ps found : List Place} (hps : ∀ p ∈ ps, p.IsIn d)
    (hfound : (ofDocument d).follow sub scope steps ps = .ok found) : IsNodeSet d found := by
  cases steps with
  | nil => exact absurd rfl hsteps
  | cons s steps =>
    unfold follow at hfound
    obtain ⟨next, hnext, hfound⟩ := bind_eq_ok_iff.1 hfound
    have hset : IsNodeSet d ((ofDocument d).sortUnique next) :=
      isNodeSet_sortUnique h (stepFromAll_isIn h hps hnext)
    exact follow_isNodeSet h hset hfound

/-- What a parsed path selects is a node-set, even if the nodes it starts at come in no order. -/
theorem isNodeSet_of_path (h : d.Linked) {dialect : Dialect} {start : Start} {steps : List Step}
    (hpath : (Expr.path start steps).Checked dialect)
    (hsub : sub.Gives d (fun ps => ∀ p ∈ ps, p.IsIn d) scope) {focus : Focus}
    (hfocus : focus.place.IsIn d) {ps found : List Place}
    (hps : startPlaces sub focus scope start = .ok ps)
    (hfound : (ofDocument d).follow sub scope steps ps = .ok found) : IsNodeSet d found := by
  have hin : ∀ p ∈ ps, p.IsIn d := startPlaces_has (lasting_isIn d) h hsub hfocus _ _ hps
  by_cases hsteps : steps = []
  · subst hsteps
    cases hfound
    cases start with
    | root =>
      cases hps
      exact isNodeSet_singleton (isIn_root h)
    | context =>
      cases hps
      exact isNodeSet_singleton hfocus
    | nodes e =>
      have hsome : ([] : List Step) ≠ [] := hpath
      exact absurd rfl hsome
  · exact isNodeSet_of_follow h hsteps hin hfound

theorem eval_path_eq_ok_iff {levels : Nat} {start : Start} {steps : List Step} {focus : Focus}
    {v : Value} : ix.eval (levels + 1) (.path start steps) focus scope = .ok v ↔
      ∃ ps found, startPlaces (ix.eval levels) focus scope start = .ok ps ∧
        ix.follow (ix.eval levels) scope steps ps = .ok found ∧ v = .nodes found := by
  show (do
    let ps ← startPlaces (ix.eval levels) focus scope start
    let found ← ix.follow (ix.eval levels) scope steps ps
    Except.ok (Value.nodes found)) = .ok v ↔ _
  constructor
  · intro hv
    obtain ⟨ps, hps, hv⟩ := bind_eq_ok_iff.1 hv
    obtain ⟨found, hfound, hv⟩ := bind_eq_ok_iff.1 hv
    cases hv
    exact ⟨ps, found, hps, hfound, rfl⟩
  · rintro ⟨ps, found, hps, hfound, rfl⟩
    exact bind_eq_ok_iff.2 ⟨ps, hps, bind_eq_ok_iff.2 ⟨found, hfound, rfl⟩⟩

/-- A path that stands anywhere in a parsed expression, at a place of a document that can be built,
with variables whose sets of nodes are places of the document in any order. It has a value exactly
if everything is found when the steps hand on what they find as it is; and its value is then what
was found, put in document order once at the end, with each place once. -/
theorem path_sorts_once (hbuilt : Built d) {context : Context} {ts : List Located} {e : Expr}
    (hparse : parse context ts = .ok e) {start : Start} {steps : List Step}
    (hholds : e.Holds (.path start steps)) {focus : Focus} (hfocus : focus.place.IsIn d)
    (hscope : scope.Has fun ps => ∀ p ∈ ps, p.IsIn d) (levels : Nat) :
    ((∃ v, (ofDocument d).eval (levels + 1) (.path start steps) focus scope = .ok v) ↔
      ∃ found, (ofDocument d).plainPath ((ofDocument d).eval levels) start steps focus scope =
        .ok found) ∧
    ∀ found, (ofDocument d).plainPath ((ofDocument d).eval levels) start steps focus scope =
        .ok found →
      (ofDocument d).eval (levels + 1) (.path start steps) focus scope =
        .ok (.nodes ((ofDocument d).sortUnique found)) ∧
      ((ofDocument d).sortUnique found).Pairwise (Precedes d) ∧
      ((ofDocument d).sortUnique found).Nodup ∧
      ∀ p, p ∈ (ofDocument d).sortUnique found ↔ p ∈ found := by
  have h := hbuilt.linked
  have hpath : (Expr.path start steps).Checked context.dialect :=
    (sized_of_parse hparse).checked _ hholds
  have hsub : Evaluator.Gives d (fun ps => ∀ p ∈ ps, p.IsIn d) scope
      ((ofDocument d).eval levels) := eval_has (lasting_isIn d) h hscope levels
  have halike : ∀ ps, Alike ((ofDocument d).follow ((ofDocument d).eval levels) scope steps ps)
      ((ofDocument d).followPlain ((ofDocument d).eval levels) scope steps ps) := fun ps =>
    follow_alike_plain steps fun _ => Iff.rfl
  constructor
  · constructor
    · rintro ⟨v, hv⟩
      obtain ⟨ps, sorted, hps, hsorted, -⟩ := eval_path_eq_ok_iff.1 hv
      obtain ⟨found, hfound⟩ := (halike ps).ok_iff.1 ⟨sorted, hsorted⟩
      exact ⟨found, bind_eq_ok_iff.2 ⟨ps, hps, hfound⟩⟩
    · rintro ⟨found, hfound⟩
      obtain ⟨ps, hps, hfound⟩ := bind_eq_ok_iff.1 hfound
      obtain ⟨sorted, hsorted⟩ := (halike ps).ok_iff.2 ⟨found, hfound⟩
      exact ⟨.nodes sorted, eval_path_eq_ok_iff.2 ⟨ps, sorted, hps, hsorted, rfl⟩⟩
  · intro found hplain
    obtain ⟨ps, hps, hfound⟩ := bind_eq_ok_iff.1 hplain
    obtain ⟨sorted, hsorted⟩ := (halike ps).ok_iff.2 ⟨found, hfound⟩
    have hset : IsNodeSet d sorted := isNodeSet_of_path h hpath hsub hfocus hps hsorted
    have hmem : ∀ p, p ∈ sorted ↔ p ∈ found := (halike ps).mem_iff hsorted hfound
    have honce : IsNodeSet d ((ofDocument d).sortUnique found) :=
      isNodeSet_sortUnique h fun p hp => hset.isIn p ((hmem p).2 hp)
    have heq : sorted = (ofDocument d).sortUnique found := by
      apply IsNodeSet.ext h hset honce
      intro p
      rw [mem_sortUnique, hmem]
    refine ⟨?_, honce.ascending, honce.nodup h, fun p => mem_sortUnique⟩
    rw [← heq]
    exact eval_path_eq_ok_iff.2 ⟨ps, sorted, hps, hsorted, rfl⟩

/-- On the shelf, from the second book and the comment, in this order: the elements in front of
each, and what is above these. Every place is found twice, from the book upwards. -/
theorem path_sorts_once_on_shelf :
    let start : Start := .nodes (.varRef "v")
    let steps : List Step := [.mk .preceding .anyName [], .mk .ancestorOrSelf .anyNode []]
    let scope : Scope := Scope.empty.push "v" (.nodes [.node 5, .node 4])
    let found : List Place := [.node 2, .node 1, .node 0, .node 2, .node 1, .node 0]
    parse (.ofDialect .legacy) [⟨.varRef "v", 0⟩, ⟨.slash, 2⟩, ⟨.name none "preceding", 3⟩,
        ⟨.colonColon, 12⟩, ⟨.name none "*", 14⟩, ⟨.slash, 15⟩, ⟨.name none "ancestor-or-self", 16⟩,
        ⟨.colonColon, 32⟩, ⟨.name none "node", 34⟩, ⟨.leftParen, 38⟩, ⟨.rightParen, 39⟩,
        ⟨.eof, 40⟩] = .ok (.path start steps) ∧
      (ofDocument .shelf).plainPath ((ofDocument .shelf).eval 1) start steps (.single (.node 0))
        scope = .ok found ∧
      (ofDocument .shelf).eval 2 (.path start steps) (.single (.node 0)) scope =
        .ok (.nodes [.node 0, .node 1, .node 2]) := by
  intro start steps scope found
  have hparse : parse (.ofDialect .legacy) [⟨.varRef "v", 0⟩, ⟨.slash, 2⟩,
      ⟨.name none "preceding", 3⟩, ⟨.colonColon, 12⟩, ⟨.name none "*", 14⟩, ⟨.slash, 15⟩,
      ⟨.name none "ancestor-or-self", 16⟩, ⟨.colonColon, 32⟩, ⟨.name none "node", 34⟩,
      ⟨.leftParen, 38⟩, ⟨.rightParen, 39⟩, ⟨.eof, 40⟩] = .ok (.path start steps) := rfl
  have hfound : (ofDocument .shelf).plainPath ((ofDocument .shelf).eval 1) start steps
      (.single (.node 0)) scope = .ok found := rfl
  have hscope : scope.Has fun ps => ∀ p ∈ ps, p.IsIn .shelf := by
    intro b hb
    obtain rfl := List.mem_singleton.1 hb
    show ∀ p ∈ [Place.node 5, .node 4], p.IsIn .shelf
    decide
  have hfocus : (Focus.single (.node 0)).place.IsIn .shelf := by decide
  have hvalue := ((path_sorts_once Markup.built_shelf hparse .refl hfocus hscope 1).2 found hfound).1
  exact ⟨hparse, hfound, hvalue⟩

end Index

end MarkupRules.Query
