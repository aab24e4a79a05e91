/-
# Patterns select from everywhere

The pattern of a location path is evaluated once, from the root, and selects what the path selects
from any node of the document. Steps go on from each place by itself and only put together what
they find, so that following them from many places collects what they find from each; the step in
front of an anchored path leads to all nodes, and a union collects what its sides collect.

Key definitions: `Collects`, `Expr.IsLocation`, `Index.nodesAt`.
Key theorems: `Index.follow_collects`, `Index.nodesAt_anchored_collects`,
`Index.pattern_selects_from_every_node`.
-/
import MarkupRules.Proofs.Query.NodeSets
import MarkupRules.Query.Pattern

namespace MarkupRules.Query

open Markup (Built Document NodeId)
open Markup.Document (root)

/-! ### Collecting -/

section Collects

variable {ε α β γ : Type}

/-- A list is what a function gives for the items of another, put together in some order: it is
there if the function has a result for each item. -/
structure Collects (f : α → Except ε (List β)) (xs : List α) (r : Except ε (List β)) : Prop where
  /-- There is a list exactly if there is a result for each item. -/
  ok_iff : (∃ ys, r = .ok ys) ↔ ∀ x ∈ xs, ∃ ys, f x = .ok ys
  /-- The list has the items of the results. -/
  mem_iff : ∀ {ys}, r = .ok ys → ∀ y, y ∈ ys ↔ ∃ x ∈ xs, ∃ zs, f x = .ok zs ∧ y ∈ zs

namespace Collects

variable {f : α → Except ε (List β)} {xs : List α} {r : Except ε (List β)}

theorem congr_mem (h : Collects f xs r) {xs' : List α} (hmem : ∀ x, x ∈ xs ↔ x ∈ xs') :
    Collects f xs' r := by
  refine ⟨?_, fun hr y => ?_⟩
  · rw [h.ok_iff]
    simp only [hmem]
  · rw [h.mem_iff hr]
    simp only [hmem]

/-- A result that is the same for all items is collected from one of them. -/
theorem const (hxs : xs ≠ []) (r : Except ε (List β)) : Collects (fun _ => r) xs r := by
  obtain ⟨x, hx⟩ := List.exists_mem_of_ne_nil xs hxs
  refine ⟨⟨fun h _ _ => h, fun h => h x hx⟩, fun {ys} hr y => ⟨fun hy => ?_, ?_⟩⟩
  · exact ⟨x, hx, ys, hr, hy⟩
  · rintro ⟨-, -, zs, hzs, hy⟩
    cases hr.symm.trans hzs
    exact hy

/-- What goes on from each collected item by itself collects what it finds from each. -/
theorem bind (h : Collects f xs r) {g : List β → Except ε (List γ)} {one : β → Except ε (List γ)}
    (hg : ∀ ys, Collects one ys (g ys)) : Collects (fun x => f x >>= g) xs (r >>= g) := by
  -- From all that was collected it goes on exactly if it does from what each item gave.
  have some_of_all {ys : List β} {zs : List γ} (hr : r = .ok ys) (hzs : g ys = .ok zs) {x : α}
      (hx : x ∈ xs) {here : List β} (hhere : f x = .ok here) : ∃ found, g here = .ok found :=
    (hg here).ok_iff.2 fun y hy =>
      (hg ys).ok_iff.1 ⟨zs, hzs⟩ y ((h.mem_iff hr y).2 ⟨x, hx, here, hhere, hy⟩)
  refine ⟨⟨?_, fun hall => ?_⟩, fun {zs} hzs z => ?_⟩
  · rintro ⟨zs, hzs⟩ x hx
    obtain ⟨ys, hr, hzs⟩ := bind_eq_ok_iff.1 hzs
    obtain ⟨here, hhere⟩ := h.ok_iff.1 ⟨ys, hr⟩ x hx
    obtain ⟨found, hfound⟩ := some_of_all hr hzs hx hhere
    exact ⟨found, bind_eq_ok_iff.2 ⟨here, hhere, hfound⟩⟩
  · obtain ⟨ys, hr⟩ := h.ok_iff.2 fun x hx => by
      obtain ⟨found, hfound⟩ := hall x hx
      obtain ⟨here, hhere, -⟩ := bind_eq_ok_iff.1 hfound
      exact ⟨here, hhere⟩
    obtain ⟨zs, hzs⟩ := (hg ys).ok_iff.2 fun y hy => by
      obtain ⟨x, hx, here, hhere, hy⟩ := (h.mem_iff hr y).1 hy
      obtain ⟨found, hfound⟩ := hall x hx
      rw [hhere] at hfound
      exact (hg here).ok_iff.1 ⟨found, hfound⟩ y hy
    exact ⟨zs, bind_eq_ok_iff.2 ⟨ys, hr, hzs⟩⟩
  · obtain ⟨ys, hr, hzs⟩ := bind_eq_ok_iff.1 hzs
    rw [(hg ys).mem_iff hzs]
    constructor
    · rintro ⟨y, hy, hfound⟩
      obtain ⟨x, hx, here, hhere, hy⟩ := (h.mem_iff hr y).1 hy
      obtain ⟨found, hall⟩ := some_of_all hr hzs hx hhere
      exact ⟨x, hx, found, bind_eq_ok_iff.2 ⟨here, hhere, hall⟩,
        ((hg here).mem_iff hall z).2 ⟨y, hy, hfound⟩⟩
    · rintro ⟨x, hx, found, hall, hz⟩
      obtain ⟨here, hhere, hall⟩ := bind_eq_ok_iff.1 hall
      obtain ⟨y, hy, hfound⟩ := ((hg here).mem_iff hall z).1 hz
      exact ⟨y, (h.mem_iff hr y).2 ⟨x, hx, here, hhere, hy⟩, hfound⟩

/-- Two results are put together if both are there. -/
theorem join_eq_ok_iff {s : Except ε (List γ)} {join : List β → List γ → List α} {ys : List α} :
    (do let as ← r; let bs ← s; .ok (join as bs)) = Except.ok ys ↔
      ∃ as bs, r = .ok as ∧ s = .ok bs ∧ join as bs = ys := by
  cases r with
  | error cause => simp [Bind.bind, Except.bind]
  | ok as => cases s <;> simp [Bind.bind, Except.bind]

/-- With one more item, its result is put in front. -/
theorem cons (h : Collects f xs r) (x : α) :
    Collects f (x :: xs) (do let here ← f x; let more ← r; .ok (here ++ more)) := by
  refine ⟨?_, fun hys y => ?_⟩
  · rw [List.forall_mem_cons, ← h.ok_iff]
    constructor
    · rintro ⟨ys, hys⟩
      obtain ⟨here, more, hhere, hmore, -⟩ := join_eq_ok_iff.1 hys
      exact ⟨⟨here, hhere⟩, more, hmore⟩
    · rintro ⟨⟨here, hhere⟩, more, hmore⟩
      exact ⟨here ++ more, join_eq_ok_iff.2 ⟨here, more, hhere, hmore, rfl⟩⟩
  · obtain ⟨here, more, hhere, hmore, rfl⟩ := join_eq_ok_iff.1 hys
    rw [List.mem_append, h.mem_iff hmore, List.exists_mem_cons_iff]
    simp [hhere]

/-- What two functions give for each item, put together, is collected from what each of them
gives for all. -/
theorem join (h : Collects f xs r) {g : α → Except ε (List β)} {s : Except ε (List β)}
    (h' : Collects g xs s) {join : List β → List β → List β}
    (hjoin : ∀ as bs y, y ∈ join as bs ↔ y ∈ as ∨ y ∈ bs) :
    Collects (fun x => do let as ← f x; let bs ← g x; .ok (join as bs)) xs
      (do let as ← r; let bs ← s; .ok (join as bs)) := by
  refine ⟨⟨?_, fun hall => ?_⟩, fun hys y => ?_⟩
  · rintro ⟨ys, hys⟩ x hx
    obtain ⟨as, bs, hr, hs, -⟩ := join_eq_ok_iff.1 hys
    obtain ⟨as', hf⟩ := h.ok_iff.1 ⟨as, hr⟩ x hx
    obtain ⟨bs', hg⟩ := h'.ok_iff.1 ⟨bs, hs⟩ x hx
    exact ⟨join as' bs', join_eq_ok_iff.2 ⟨as', bs', hf, hg, rfl⟩⟩
  · have hboth : ∀ x ∈ xs, (∃ as, f x = .ok as) ∧ ∃ bs, g x = .ok bs := by
      intro x hx
      obtain ⟨ys, hys⟩ := hall x hx
      obtain ⟨as, bs, hf, hg, -⟩ := join_eq_ok_iff.1 hys
      exact ⟨⟨as, hf⟩, bs, hg⟩
    obtain ⟨as, hr⟩ := h.ok_iff.2 fun x hx => (hboth x hx).1
    obtain ⟨bs, hs⟩ := h'.ok_iff.2 fun x hx => (hboth x hx).2
    exact ⟨join as bs, join_eq_ok_iff.2 ⟨as, bs, hr, hs, rfl⟩⟩
  · obtain ⟨as, bs, hr, hs, rfl⟩ := join_eq_ok_iff.1 hys
    rw [hjoin, h.mem_iff hr, h'.mem_iff hs]
    constructor
    · rintro (⟨x, hx, as', hf, hy⟩ | ⟨x, hx, bs', hg, hy⟩)
      · obtain ⟨bs', hg⟩ := h'.ok_iff.1 ⟨bs, hs⟩ x hx
        exact ⟨x, hx, _, join_eq_ok_iff.2 ⟨as', bs', hf, hg, rfl⟩, (hjoin _ _ y).2 (.inl hy)⟩
      · obtain ⟨as', hf⟩ := h.ok_iff.1 ⟨as, hr⟩ x hx
        exact ⟨x, hx, _, join_eq_ok_iff.2 ⟨as', bs', hf, hg, rfl⟩, (hjoin _ _ y).2 (.inr hy)⟩
    · rintro ⟨x, hx, zs, hzs, hy⟩
      obtain ⟨as', bs', hf, hg, rfl⟩ := join_eq_ok_iff.1 hzs
      rcases (hjoin _ _ y).1 hy with hy | hy
      · exact .inl ⟨x, hx, as', hf, hy⟩
      · exact .inr ⟨x, hx, bs', hg, hy⟩

end Collects

end Collects

/-! ### Steps -/

namespace Index

variable {ix : Index} {sub : Evaluator} {scope : Scope}

theorem stepFromAll_collects {s : Step} : ∀ ps : List Place,
    Collects (ix.stepFrom sub scope s) ps (ix.stepFromAll sub scope s ps)
  | [] => by
    refine ⟨⟨fun _ x hx => (List.not_mem_nil hx).elim, fun _ => ⟨[], rfl⟩⟩, fun hys y => ?_⟩
    cases hys
    simp
  | p :: ps => (stepFromAll_collects ps).cons p

theorem stepFromAll_singleton {s : Step} (p : Place) :
    ix.stepFromAll sub scope s [p] = ix.stepFrom sub scope s p := by
  unfold stepFromAll stepFromAll
  cases ix.stepFrom sub scope s p with
  | error cause => rfl
  | ok here => exact congrArg Except.ok (List.append_nil here)

theorem follow_collects : ∀ (steps : List Step) (ps : List Place),
    Collects (fun p => ix.follow sub scope steps [p]) ps (ix.follow sub scope steps ps)
  | [], ps => by
    refine ⟨⟨fun _ p _ => ⟨[p], rfl⟩, fun _ => ⟨ps, rfl⟩⟩, fun hys y => ?_⟩
    cases hys
    simp [follow]
  | s :: steps, ps => by
    have hnext : ∀ found, Collects (fun p => ix.follow sub scope steps [p]) found
        (ix.follow sub scope steps (ix.sortUnique found)) := fun found =>
      (follow_collects steps (ix.sortUnique found)).congr_mem fun _ => mem_sortUnique
    have hone : (fun p => ix.follow sub scope (s :: steps) [p]) = fun p =>
        ix.stepFrom sub scope s p >>= fun found =>
          ix.follow sub scope steps (ix.sortUnique found) := by
      funext p
      rw [follow, stepFromAll_singleton]
    rw [hone]
    exact (stepFromAll_collects ps).bind hnext

end Index

/-! ### Location paths -/

/-- Expressions that are paths from the root or the context, or unions of such expressions. -/
inductive Expr.IsLocation : Expr → Prop where
  | fromRoot (steps : List Step) : IsLocation (.path .root steps)
  | fromContext (steps : List Step) : IsLocation (.path .context steps)
  | union {left right : Expr} : IsLocation left → IsLocation right → IsLocation (.union left right)

theorem Expr.IsLocation.anchored {e : Expr} (he : e.IsLocation) : e.anchored.IsLocation := by
  induction he with
  | fromRoot steps => exact .fromRoot steps
  | fromContext steps => exact .fromRoot _
  | union _ _ ihl ihr => exact .union ihl ihr

namespace Index

variable {ix : Index} {scope : Scope} {d : Document}

/-- The nodes that an expression selects from a place, with a number of levels. -/
def nodesAt (ix : Index) (scope : Scope) (levels : Nat) (e : Expr) (p : Place) :
    Except QueryError (List Place) :=
  ix.eval levels e (.single p) scope >>= asNodes

theorem nodesAt_path (levels : Nat) (start : Start) (steps : List Step) (p : Place) :
    ix.nodesAt scope (levels + 1) (.path start steps) p = (do
      let ps ← startPlaces (ix.eval levels) (.single p) scope start
      ix.follow (ix.eval levels) scope steps ps) := by
  show (do
      let ps ← startPlaces (ix.eval levels) (.single p) scope start
      let found ← ix.follow (ix.eval levels) scope steps ps
      Except.ok (Value.nodes found)) >>= asNodes = _
  simp only [bind_assoc]
  exact congrArg _ (funext fun ps => bind_pure _)

theorem nodesAt_fromRoot (levels : Nat) (steps : List Step) (p : Place) :
    ix.nodesAt scope (levels + 1) (.path .root steps) p =
      ix.follow (ix.eval levels) scope steps [.node root] :=
  nodesAt_path levels .root steps p

theorem nodesAt_fromContext (levels : Nat) (steps : List Step) (p : Place) :
    ix.nodesAt scope (levels + 1) (.path .context steps) p =
      ix.follow (ix.eval levels) scope steps [p] :=
  nodesAt_path levels .context steps p

theorem nodesAt_union (levels : Nat) (left right : Expr) (p : Place) :
    ix.nodesAt scope (levels + 1) (.union left right) p = (do
      let as ← ix.nodesAt scope levels left p
      let bs ← ix.nodesAt scope levels right p
      .ok (ix.sortUnique (as ++ bs))) := by
  show (do
      let a ← ix.eval levels left (.single p) scope
      let as ← asNodes a
      let b ← ix.eval levels right (.single p) scope
      let bs ← asNodes b
      Except.ok (Value.nodes (ix.sortUnique (as ++ bs)))) >>= asNodes = _
  simp only [nodesAt, bind_assoc]
  rfl

/-- All nodes of a document. -/
def everyNode (d : Document) : List Place :=
  (d.listing root).map .node

theorem mem_everyNode (h : d.Linked) {p : Place} :
    p ∈ everyNode d ↔ ∃ n < d.size, .node n = p := by
  simp only [everyNode, List.mem_map, h.mem_listing_root]

theorem everyNode_ne_nil (h : d.Linked) : everyNode d ≠ [] :=
  List.ne_nil_of_mem ((mem_everyNode h).2 ⟨root, h.root_lt, rfl⟩)

/-- The step that a double slash stands for leads from the root to every node. -/
theorem stepFrom_anywhere (h : d.Linked) {sub : Evaluator} :
    (ofDocument d).stepFrom sub scope Step.anywhere (.node root) = .ok (everyNode d) := by
  have hpasses : (ofDocument d).passes .descendantOrSelf .anyNode = fun _ => true := rfl
  show Except.ok (((ofDocument d).along .descendantOrSelf (.node root)).filter
    ((ofDocument d).passes .descendantOrSelf .anyNode)) = _
  rw [hpasses, List.filter_true, everyNode, h.listing_eq_cons]
  rfl

/-- From anywhere, an anchored location path selects what the path selects from every node. -/
theorem nodesAt_anchored_collects (h : d.Linked) {e : Expr} (he : e.IsLocation) (p : Place) :
    ∀ levels, Collects ((ofDocument d).nodesAt scope levels e) (everyNode d)
      ((ofDocument d).nodesAt scope levels e.anchored p) := by
  induction he with
  | fromRoot steps =>
    rintro (_ | levels)
    · exact .const (everyNode_ne_nil h) _
    · simp only [Expr.anchored, funext (nodesAt_fromRoot levels steps)]
      exact .const (everyNode_ne_nil h) _
  | fromContext steps =>
    rintro (_ | levels)
    · exact .const (everyNode_ne_nil h) _
    · rw [Expr.anchored, nodesAt_fromRoot, follow, stepFromAll_singleton, stepFrom_anywhere h,
        funext (nodesAt_fromContext levels steps)]
      exact (follow_collects steps _).congr_mem fun _ => mem_sortUnique
  | @union left right _ _ ihl ihr =>
    rintro (_ | levels)
    · exact .const (everyNode_ne_nil h) _
    · rw [Expr.anchored, nodesAt_union, funext (nodesAt_union levels left right)]
      refine (ihl levels).join (ihr levels) fun as bs q => ?_
      rw [mem_sortUnique, List.mem_append]

/-- An anchored location path starts at the root, so that it selects a node-set from anywhere. -/
theorem nodesAt_anchored_isNodeSet (h : d.Linked) {e : Expr} (he : e.IsLocation) {p : Place} :
    ∀ {levels ps}, (ofDocument d).nodesAt scope levels e.anchored p = .ok ps → IsNodeSet d ps := by
  induction he with
  | fromRoot steps =>
    rintro (_ | levels) ps hps
    · cases hps
    · change (ofDocument d).nodesAt scope (levels + 1) (.path .root steps) p = .ok ps at hps
      rw [nodesAt_fromRoot] at hps
      exact follow_isNodeSet h (isNodeSet_singleton (isIn_root h)) hps
  | fromContext steps =>
    rintro (_ | levels) ps hps
    · cases hps
    · rw [Expr.anchored, nodesAt_fromRoot] at hps
      exact follow_isNodeSet h (isNodeSet_singleton (isIn_root h)) hps
  | union _ _ ihl ihr =>
    rintro (_ | levels) ps hps
    · cases hps
    · rw [Expr.anchored, nodesAt_union] at hps
      obtain ⟨as, bs, has, hbs, rfl⟩ := Collects.join_eq_ok_iff.1 hps
      refine isNodeSet_sortUnique h fun q hq => ?_
      rcases List.mem_append.1 hq with hq | hq
      · exact (ihl has).isIn q hq
      · exact (ihr hbs).isIn q hq

theorem nodesAt_eq_ok_iff {levels : Nat} {e : Expr} {p : Place} {ps : List Place} :
    ix.nodesAt scope levels e p = .ok ps ↔ ix.eval levels e (.single p) scope = .ok (.nodes ps) := by
  unfold nodesAt
  rw [bind_eq_ok_iff]
  constructor
  · rintro ⟨v, hv, hps⟩
    cases v <;> cases hps
    exact hv
  · intro h
    exact ⟨.nodes ps, h, rfl⟩

/-- The value of a location path is a set of nodes. -/
theorem eval_location {levels : Nat} {e : Expr} (he : e.IsLocation) {focus : Focus} {v : Value}
    (hv : ix.eval levels e focus scope = .ok v) : ∃ ps, v = .nodes ps := by
  cases levels with
  | zero => cases hv
  | succ levels =>
    cases he with
    | fromRoot steps =>
      obtain ⟨ps, -, hv⟩ := bind_eq_ok_iff.1 hv
      obtain ⟨found, -, hv⟩ := bind_eq_ok_iff.1 hv
      cases hv
      exact ⟨found, rfl⟩
    | fromContext steps =>
      obtain ⟨ps, -, hv⟩ := bind_eq_ok_iff.1 hv
      obtain ⟨found, -, hv⟩ := bind_eq_ok_iff.1 hv
      cases hv
      exact ⟨found, rfl⟩
    | union _ _ =>
      obtain ⟨a, -, hv⟩ := bind_eq_ok_iff.1 hv
      obtain ⟨as, -, hv⟩ := bind_eq_ok_iff.1 hv
      obtain ⟨b, -, hv⟩ := bind_eq_ok_iff.1 hv
      obtain ⟨bs, -, hv⟩ := bind_eq_ok_iff.1 hv
      cases hv
      exact ⟨_, rfl⟩

theorem exists_eval_iff {levels : Nat} {e : Expr} (he : e.IsLocation) {p : Place} :
    (∃ v, ix.eval levels e (.single p) scope = .ok v) ↔
      ∃ ps, ix.nodesAt scope levels e p = .ok ps := by
  simp only [nodesAt_eq_ok_iff]
  constructor
  · rintro ⟨v, hv⟩
    obtain ⟨ps, rfl⟩ := eval_location he hv
    exact ⟨ps, hv⟩
  · rintro ⟨ps, hps⟩
    exact ⟨.nodes ps, hps⟩

/-- In a document that can be built, the pattern of a location path, or of a union of such paths,
has a value at any place exactly if the path has one at every node. The value is the node-set of
all that the path selects from some node, in document order. -/
theorem pattern_selects_from_every_node (hbuilt : Built d) {q : Query} (hq : q.expr.IsLocation)
    (p : Place) (scope : Scope) :
    ((∃ v, (ofDocument d).evaluate (asPattern q) p scope = .ok v) ↔
      ∀ n < d.size, ∃ v, (ofDocument d).evaluate q (.node n) scope = .ok v) ∧
    ∀ v, (ofDocument d).evaluate (asPattern q) p scope = .ok v →
      ∃ ps, v = .nodes ps ∧ ps.Pairwise (Precedes d) ∧ ps.Nodup ∧
        ∀ x, x ∈ ps ↔ ∃ n < d.size, ∃ qs,
          (ofDocument d).evaluate q (.node n) scope = .ok (.nodes qs) ∧ x ∈ qs := by
  have h := hbuilt.linked
  have hcollects : Collects ((ofDocument d).nodesAt scope (depthLimit + 1) q.expr) (everyNode d)
      ((ofDocument d).nodesAt scope (depthLimit + 1) q.expr.anchored p) :=
    nodesAt_anchored_collects h hq p (depthLimit + 1)
  constructor
  · calc (∃ v, (ofDocument d).evaluate (asPattern q) p scope = .ok v)
        ↔ ∃ ps, (ofDocument d).nodesAt scope (depthLimit + 1) q.expr.anchored p = .ok ps :=
          exists_eval_iff hq.anchored
      _ ↔ ∀ x ∈ everyNode d, ∃ qs,
            (ofDocument d).nodesAt scope (depthLimit + 1) q.expr x = .ok qs :=
          hcollects.ok_iff
      _ ↔ ∀ n < d.size, ∃ qs,
            (ofDocument d).nodesAt scope (depthLimit + 1) q.expr (.node n) = .ok qs := by
          simp only [mem_everyNode h, forall_exists_index, and_imp, forall_apply_eq_imp_iff₂]
      _ ↔ ∀ n < d.size, ∃ v, (ofDocument d).evaluate q (.node n) scope = .ok v :=
          forall₂_congr fun n _ => (exists_eval_iff hq).symm
  · intro v hv
    obtain ⟨ps, rfl⟩ := eval_location hq.anchored hv
    have hps : (ofDocument d).nodesAt scope (depthLimit + 1) q.expr.anchored p = .ok ps :=
      nodesAt_eq_ok_iff.2 hv
    have hset : IsNodeSet d ps := nodesAt_anchored_isNodeSet h hq hps
    refine ⟨ps, rfl, hset.ascending, hset.nodup h, fun x => ?_⟩
    rw [hcollects.mem_iff hps]
    constructor
    · rintro ⟨y, hy, qs, hqs, hx⟩
      obtain ⟨n, hn, rfl⟩ := (mem_everyNode h).1 hy
      exact ⟨n, hn, qs, nodesAt_eq_ok_iff.1 hqs, hx⟩
    · rintro ⟨n, hn, qs, hqs, hx⟩
      exact ⟨.node n, (mem_everyNode h).2 ⟨n, hn, rfl⟩, qs, nodesAt_eq_ok_iff.2 hqs, hx⟩

/-- Books and identifiers on the shelf: from the root the pattern finds the first book, its
identifier and the second book, of which the path finds the books from the shelf and the
identifier from its book. -/
theorem pattern_selects_from_every_node_of_shelf :
    let q : Query := ⟨"book | @id", .union (.path .context [.mk .child (.name none "book") []])
      (.path .context [.mk .attr (.name none "id") []])⟩
    let found : List Place := [.node 2, .attr 2 0, .node 5]
    q.expr.IsLocation ∧
      (ofDocument .shelf).evaluate (asPattern q) (.node 0) .empty = .ok (.nodes found) ∧
      ∀ x, x ∈ found ↔ ∃ n < Document.shelf.size, ∃ qs,
        (ofDocument .shelf).evaluate q (.node n) .empty = .ok (.nodes qs) ∧ x ∈ qs := by
  intro q found
  have hq : q.expr.IsLocation := .union (.fromContext _) (.fromContext _)
  have hvalue : (ofDocument .shelf).evaluate (asPattern q) (.node 0) .empty =
      .ok (.nodes found) := rfl
  obtain ⟨ps, hps, -, -, hmem⟩ :=
    (pattern_selects_from_every_node Markup.built_shelf hq (.node 0) .empty).2 _ hvalue
  cases hps
  exact ⟨hq, hvalue, hmem⟩

end Index

end MarkupRules.Query
