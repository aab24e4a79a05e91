/-
# Values are sound

A value is sound for a document if it is no set of nodes, or a node-set of the document: places of
the document, each before the next in document order. At a place of the document, with sound
variables, every expression that has a value has a sound one. A step collects places from several
others, in the order of its axis, and its result is sorted; predicates only take places away.

Nothing is read beside the document on the way. Evaluation hands places on only as the focus of a
part or in the value of a part, so it makes no difference what happens at a focus that is not in
the document, or with a value that is not sound.

The same induction shows less of variables of which less is known: if their sets of nodes are only
known to consist of places of the document, in any order, so are those of all values.

Key definitions: `Value.Sound`, `Scope.Sound`, `Lasting`, `Value.Has`, `Index.evalGuarded`.

Key theorems: `isNodeSet_sortUnique`, `evalLevel_has`, `eval_has`, `eval_sound`, `evalLevel_congr`,
`eval_keeps_node_sets`.
-/
import MarkupRules.Proofs.Query.Axes
import MarkupRules.Proofs.Steps
import MarkupRules.Query.Eval

namespace MarkupRules.Query

open Markup (Built Document NodeId)
open Markup.Document (root)

/-! ### Sound values -/

/-- A value without sets of nodes, or a node-set of a document. -/
def Value.Sound (d : Document) : Value → Prop
  | .nodes ps => IsNodeSet d ps
  | _ => True

instance (d : Document) (v : Value) : Decidable (v.Sound d) :=
  match v with
  | .nodes ps => inferInstanceAs (Decidable (IsNodeSet d ps))
  | .truth _ => inferInstanceAs (Decidable True)
  | .number _ => inferInstanceAs (Decidable True)
  | .text _ => inferInstanceAs (Decidable True)

/-- All variables have sound values. -/
def Scope.Sound (d : Document) (s : Scope) : Prop :=
  ∀ b ∈ s.bindings, b.2.Sound d

/-- Evaluation with the given variables that gives sound values at the places of a document. -/
def Evaluator.Sound (d : Document) (scope : Scope) (sub : Evaluator) : Prop :=
  ∀ e focus v, focus.place.IsIn d → sub e focus scope = .ok v → v.Sound d

variable {d : Document} {scope : Scope}

theorem Scope.Sound.push (hscope : scope.Sound d) (name : String) {v : Value} (hv : v.Sound d) :
    (scope.push name v).Sound d := by
  intro b hb
  rcases List.mem_cons.1 hb with rfl | hb
  · exact hv
  · exact hscope b hb

/-- Sorting places of a document gives a node-set. -/
theorem isNodeSet_sortUnique (h : d.Linked) {ps : List Place} (hps : ∀ p ∈ ps, p.IsIn d) :
    IsNodeSet d ((Index.ofDocument d).sortUnique ps) := by
  have hin : ∀ p ∈ (Index.ofDocument d).sortUnique ps, p.IsIn d := fun p hp =>
    hps p (Index.mem_sortUnique.1 hp)
  have hdecides : Decides (Index.ofDocument d).notAfter (Place.IsIn d)
      (Index.ofDocument d).Before := by
    refine ⟨Index.before_trans, fun ha hb hab hle => ?_, fun _ _ hle => ?_⟩
    · have hback := Index.notAfter_iff_not_before.1 hle
      exact (Index.before_total h ha hb hab).resolve_right hback
    · rwa [Index.notAfter_iff_not_before, not_not] at hle
  exact ⟨hin, pairwise_precedes h hin (pairwise_sortUniqueBy hdecides hps)⟩

/-! ### What lasts -/

/-- What holds of every node-set of a document, speaks of places of the document only, and still
holds when places are taken away. -/
structure Lasting (d : Document) (P : List Place → Prop) : Prop where
  /-- Only places of the document have it. -/
  isIn : ∀ {ps}, P ps → ∀ p ∈ ps, p.IsIn d
  /-- Node-sets have it. -/
  of_isNodeSet : ∀ {ps}, IsNodeSet d ps → P ps
  /-- What is left of a list that has it has it. -/
  sublist : ∀ {ps qs}, P qs → ps.Sublist qs → P ps

theorem lasting_isNodeSet (d : Document) : Lasting d (IsNodeSet d) :=
  ⟨IsNodeSet.isIn, id, IsNodeSet.sublist⟩

theorem lasting_isIn (d : Document) : Lasting d fun ps => ∀ p ∈ ps, p.IsIn d :=
  ⟨id, IsNodeSet.isIn, fun hqs hsub p hp => hqs p (hsub.subset hp)⟩

/-- A value without sets of nodes, or one of whose places something holds. -/
def Value.Has (P : List Place → Prop) : Value → Prop
  | .nodes ps => P ps
  | _ => True

/-- It holds of the sets of nodes in all variables. -/
def Scope.Has (P : List Place → Prop) (s : Scope) : Prop :=
  ∀ b ∈ s.bindings, b.2.Has P

/-- It holds of the sets of nodes that are found at the places of a document, with the given
variables. -/
def Evaluator.Gives (d : Document) (P : List Place → Prop) (scope : Scope) (sub : Evaluator) :
    Prop :=
  ∀ e focus v, focus.place.IsIn d → sub e focus scope = .ok v → v.Has P

section Lasting

variable {P : List Place → Prop}

theorem Scope.Has.get? (hscope : scope.Has P) {name : String} {v : Value}
    (h : scope.get? name = some v) : v.Has P := by
  obtain ⟨b, hb, rfl⟩ := Option.map_eq_some_iff.1 h
  exact hscope b (List.mem_of_find?_eq_some hb)

theorem asNodes_has {v : Value} (hv : v.Has P) {ps : List Place} (h : asNodes v = .ok ps) :
    P ps := by
  cases v <;> cases h
  exact hv

theorem asNodes_isNodeSet {v : Value} (hv : v.Sound d) {ps : List Place} (h : asNodes v = .ok ps) :
    IsNodeSet d ps :=
  asNodes_has (P := IsNodeSet d) hv h

/-! ### The values of functions -/

namespace Index

theorem isNodeSet_identified (h : d.Linked) (v : Value) :
    IsNodeSet d ((ofDocument d).identified v) := by
  refine isNodeSet_sortUnique h fun p hp => ?_
  obtain ⟨n, hn, rfl⟩ := List.mem_map.1 hp
  obtain ⟨word, -, hfind⟩ := List.mem_filterMap.1 hn
  exact Document.Linked.lt_size_of_above (h.mem_descendants.1 (List.mem_of_find?_eq_some hfind))

/-- Of all functions only the one that looks for identifiers gives a set of nodes. -/
theorem apply_has (hP : Lasting d P) (h : d.Linked) {f : Builtin} {focus : Focus}
    {args : List Value} {v : Value} (happly : (ofDocument d).apply f focus args = .ok v) :
    v.Has P := by
  unfold apply at happly
  split at happly
  case h_4 =>
    cases happly
    exact hP.of_isNodeSet (isNodeSet_identified h _)
  all_goals
    first
    | obtain ⟨-, -, rfl⟩ := map_eq_ok_iff.1 happly
      exact trivial
    | cases happly
      exact trivial
    | cases happly

theorem call_has (hP : Lasting d P) (h : d.Linked) {name : String} {focus : Focus}
    {args : List Value} {v : Value} (hcall : (ofDocument d).call name focus args = .ok v) :
    v.Has P := by
  unfold call at hcall
  split at hcall
  · exact apply_has hP h hcall
  · cases hcall

end Index

end Lasting

/-! ### Predicates -/

theorem keep_sublist {sub : Evaluator} {predicate : Expr} {size : Nat} :
    ∀ {position : Nat} {ps qs : List Place},
      keep sub scope predicate size position ps = .ok qs → qs.Sublist ps
  | _, [], _, h => by
    cases h
    exact .slnil
  | position, p :: rest, qs, h => by
    unfold keep at h
    obtain ⟨v, -, h⟩ := bind_eq_ok_iff.1 h
    obtain ⟨more, hmore, h⟩ := bind_eq_ok_iff.1 h
    have hsub := keep_sublist hmore
    cases h
    split
    · exact hsub.cons_cons p
    · exact hsub.cons p

/-- Predicates only take places away. -/
theorem keepAll_sublist {sub : Evaluator} : ∀ {predicates : List Expr} {ps qs : List Place},
    keepAll sub scope predicates ps = .ok qs → qs.Sublist ps
  | [], _, _, h => by
    cases h
    exact List.Sublist.refl _
  | predicate :: more, ps, qs, h => by
    unfold keepAll at h
    obtain ⟨kept, hkept, h⟩ := bind_eq_ok_iff.1 h
    exact (keepAll_sublist h).trans (keep_sublist hkept)

/-! ### Steps -/

namespace Index

theorem stepFrom_isIn (h : d.Linked) {sub : Evaluator} {s : Step} {p : Place} (hp : p.IsIn d)
    {found : List Place} (hfound : (ofDocument d).stepFrom sub scope s p = .ok found) :
    ∀ q ∈ found, q.IsIn d := by
  intro q hq
  have hmem := (keepAll_sublist hfound).subset hq
  exact isIn_of_mem_along h hp (List.mem_filter.1 hmem).1

theorem stepFromAll_isIn (h : d.Linked) {sub : Evaluator} {s : Step} :
    ∀ {ps : List Place}, (∀ p ∈ ps, p.IsIn d) → ∀ {found : List Place},
      (ofDocument d).stepFromAll sub scope s ps = .ok found → ∀ q ∈ found, q.IsIn d
  | [], _, found, hfound => by
    cases hfound
    simp
  | p :: ps, hps, found, hfound => by
    rw [List.forall_mem_cons] at hps
    unfold stepFromAll at hfound
    obtain ⟨here, hhere, hfound⟩ := bind_eq_ok_iff.1 hfound
    obtain ⟨more, hmore, hfound⟩ := bind_eq_ok_iff.1 hfound
    cases hfound
    intro q hq
    rcases List.mem_append.1 hq with hq | hq
    · exact stepFrom_isIn h hps.1 hhere q hq
    · exact stepFromAll_isIn h hps.2 hmore q hq

section Lasting

variable {P : List Place → Prop} (hP : Lasting d P) (h : d.Linked)

include hP h

/-- What lasts holds of what steps lead to, if it holds where they start. -/
theorem follow_has {sub : Evaluator} : ∀ {steps : List Step} {ps found : List Place}, P ps →
    (ofDocument d).follow sub scope steps ps = .ok found → P found
  | [], _, _, hps, hfound => by
    cases hfound
    exact hps
  | s :: steps, ps, found, hps, hfound => by
    unfold follow at hfound
    obtain ⟨next, hnext, hfound⟩ := bind_eq_ok_iff.1 hfound
    have hset : IsNodeSet d ((ofDocument d).sortUnique next) :=
      isNodeSet_sortUnique h (stepFromAll_isIn h (hP.isIn hps) hnext)
    exact follow_has (hP.of_isNodeSet hset) hfound

theorem startPlaces_has {sub : Evaluator} (hsub : sub.Gives d P scope) {focus : Focus}
    (hfocus : focus.place.IsIn d) : ∀ start : Start,
      GivesOnly P (startPlaces sub focus scope start)
  | .root => .ok (hP.of_isNodeSet (isNodeSet_singleton (isIn_root h)))
  | .context => .ok (hP.of_isNodeSet (isNodeSet_singleton hfocus))
  | .nodes e => .bind (fun v hv => hsub e focus v hfocus hv) fun _ hv _ => asNodes_has hv

/-! ### Expressions -/

/-- If something that lasts holds of the parts of an expression and of the variables, it holds of
the expression. -/
theorem evalLevel_has (hscope : scope.Has P) {sub : Evaluator} (hsub : sub.Gives d P scope) :
    ((ofDocument d).evalLevel sub).Gives d P scope := by
  intro e focus v hfocus
  have part (e : Expr) : GivesOnly (Value.Has P) (sub e focus scope) := fun v hv =>
    hsub e focus v hfocus hv
  have nodes (v : Value) (hv : v.Has P) : GivesOnly P (asNodes v) := fun _ => asNodes_has hv
  revert v
  show GivesOnly (Value.Has P) _
  -- Only unions, paths, filters, variables and calls can give sets of nodes.
  cases e with
  | or left right =>
    refine .bind (part left) fun a _ => ?_
    split
    · exact .ok trivial
    · exact .bind (part right) fun _ _ => .ok trivial
  | and left right =>
    refine .bind (part left) fun a _ => ?_
    split
    · exact .bind (part right) fun _ _ => .ok trivial
    · exact .ok trivial
  | compare op left right =>
    exact .bind (part left) fun _ _ => .bind (part right) fun _ _ => .ok trivial
  | arith op left right =>
    exact .bind (part left) fun _ _ => .bind (part right) fun _ _ => .ok trivial
  | negate operand => exact .bind (part operand) fun _ _ => .ok trivial
  | union left right =>
    refine .bind (part left) fun a ha => .bind (nodes a ha) fun as has => ?_
    refine .bind (part right) fun b hb => .bind (nodes b hb) fun bs hbs => .ok ?_
    refine hP.of_isNodeSet (isNodeSet_sortUnique h fun p hp => ?_)
    rcases List.mem_append.1 hp with hp | hp
    · exact hP.isIn has p hp
    · exact hP.isIn hbs p hp
  | path start steps =>
    refine .bind (startPlaces_has hP h hsub hfocus start) fun ps hps => ?_
    exact .bind (fun _ => follow_has hP h hps) fun _ hfound => .ok hfound
  | filter primary predicates =>
    refine .bind (part primary) fun a ha => .bind (nodes a ha) fun ps hps => ?_
    exact .bind (fun _ hkept => hP.sublist hps (keepAll_sublist hkept)) fun _ hkept => .ok hkept
  | literal body => exact .ok trivial
  | number x => exact .ok trivial
  | varRef name =>
    unfold evalLevel
    dsimp only
    split
    · next w hw => exact .ok (hscope.get? hw)
    · exact .error _
  | call function args => exact .bind (fun _ _ => trivial) fun _ _ _ => call_has hP h

/-- What lasts and holds of the variables holds of all values at places of the document. -/
theorem eval_has (hscope : scope.Has P) :
    ∀ levels : Nat, Evaluator.Gives d P scope ((ofDocument d).eval levels)
  | 0 => fun _ _ _ _ hv => by cases hv
  | levels + 1 => evalLevel_has hP h hscope (eval_has hscope levels)

end Lasting

/-- Steps lead from a node-set to a node-set. -/
theorem follow_isNodeSet (h : d.Linked) {sub : Evaluator} {steps : List Step}
    {ps found : List Place} (hps : IsNodeSet d ps)
    (hfound : (ofDocument d).follow sub scope steps ps = .ok found) : IsNodeSet d found :=
  follow_has (lasting_isNodeSet d) h hps hfound

theorem startPlaces_isNodeSet (h : d.Linked) {sub : Evaluator} (hsub : sub.Sound d scope)
    {focus : Focus} (hfocus : focus.place.IsIn d) {start : Start} {ps : List Place}
    (hps : startPlaces sub focus scope start = .ok ps) : IsNodeSet d ps :=
  startPlaces_has (lasting_isNodeSet d) h hsub hfocus _ _ hps

/-- At a place of the document and with sound variables, an expression that has a value has a
sound one. -/
theorem eval_sound (h : d.Linked) (hscope : scope.Sound d) (levels : Nat) :
    Evaluator.Sound d scope ((ofDocument d).eval levels) :=
  eval_has (lasting_isNodeSet d) h hscope levels

end Index

/-! ### Evaluation stays within the document -/

/-- Two evaluators agree at the places of a document, with the given variables. -/
def Evaluator.Agree (d : Document) (scope : Scope) (sub other : Evaluator) : Prop :=
  ∀ e focus, focus.place.IsIn d → sub e focus scope = other e focus scope

section Agree

variable {sub other : Evaluator} (hagree : sub.Agree d scope other)

include hagree

theorem keep_congr {predicate : Expr} {size : Nat} : ∀ {position : Nat} {ps : List Place},
    (∀ p ∈ ps, p.IsIn d) →
      keep sub scope predicate size position ps = keep other scope predicate size position ps
  | _, [], _ => rfl
  | position, p :: rest, hps => by
    rw [List.forall_mem_cons] at hps
    rw [keep, keep, hagree predicate ⟨p, position, size⟩ hps.1, keep_congr hps.2]

theorem keepAll_congr : ∀ {predicates : List Expr} {ps : List Place}, (∀ p ∈ ps, p.IsIn d) →
    keepAll sub scope predicates ps = keepAll other scope predicates ps
  | [], _, _ => rfl
  | predicate :: more, ps, hps => by
    rw [keepAll, keepAll, keep_congr hagree hps]
    refine bind_congr_ok fun kept hkept => keepAll_congr fun p hp => ?_
    exact hps p ((keep_sublist hkept).subset hp)

theorem evalArgs_congr {focus : Focus} (hfocus : focus.place.IsIn d) :
    ∀ args : List Expr, evalArgs sub focus scope args = evalArgs other focus scope args
  | [] => rfl
  | e :: rest => by
    rw [evalArgs, evalArgs, hagree e focus hfocus, evalArgs_congr hfocus rest]

namespace Index

theorem startPlaces_congr {focus : Focus} (hfocus : focus.place.IsIn d) :
    ∀ start : Start, startPlaces sub focus scope start = startPlaces other focus scope start
  | .root => rfl
  | .context => rfl
  | .nodes e => by rw [startPlaces, startPlaces, hagree e focus hfocus]

theorem stepFrom_congr (h : d.Linked) {s : Step} {p : Place} (hp : p.IsIn d) :
    (ofDocument d).stepFrom sub scope s p = (ofDocument d).stepFrom other scope s p :=
  keepAll_congr hagree fun _ hq => isIn_of_mem_along h hp (List.mem_filter.1 hq).1

theorem stepFromAll_congr (h : d.Linked) {s : Step} : ∀ {ps : List Place},
    (∀ p ∈ ps, p.IsIn d) →
      (ofDocument d).stepFromAll sub scope s ps = (ofDocument d).stepFromAll other scope s ps
  | [], _ => rfl
  | p :: ps, hps => by
    rw [List.forall_mem_cons] at hps
    rw [stepFromAll, stepFromAll, stepFrom_congr hagree h hps.1, stepFromAll_congr h hps.2]

theorem follow_congr (h : d.Linked) : ∀ {steps : List Step} {ps : List Place},
    (∀ p ∈ ps, p.IsIn d) →
      (ofDocument d).follow sub scope steps ps = (ofDocument d).follow other scope steps ps
  | [], _, _ => rfl
  | s :: steps, ps, hps => by
    rw [follow, follow, stepFromAll_congr hagree h hps]
    refine bind_congr_ok fun found hfound => follow_congr h ?_
    exact (isNodeSet_sortUnique h (stepFromAll_isIn h (fun p hp => hps p hp) hfound)).isIn

/-- Evaluators that agree on the parts of an expression agree on the expression. -/
theorem evalLevel_congr (h : d.Linked) (hsub : other.Sound d scope) :
    ((ofDocument d).evalLevel sub).Agree d scope ((ofDocument d).evalLevel other) := by
  intro e focus hfocus
  cases e with
  | or left right => simp only [evalLevel, hagree _ focus hfocus]
  | and left right => simp only [evalLevel, hagree _ focus hfocus]
  | compare op left right => simp only [evalLevel, hagree _ focus hfocus]
  | arith op left right => simp only [evalLevel, hagree _ focus hfocus]
  | negate operand => simp only [evalLevel, hagree _ focus hfocus]
  | union left right => simp only [evalLevel, hagree _ focus hfocus]
  | path start steps =>
    rw [evalLevel, evalLevel, startPlaces_congr hagree hfocus]
    refine bind_congr_ok fun ps hps => ?_
    rw [follow_congr hagree h (startPlaces_isNodeSet h hsub hfocus hps).isIn]
  | filter primary predicates =>
    rw [evalLevel, evalLevel, hagree primary focus hfocus]
    refine bind_congr_ok fun v hv => bind_congr_ok fun ps hps => ?_
    rw [keepAll_congr hagree (asNodes_isNodeSet (hsub primary focus v hfocus hv) hps).isIn]
  | literal body => rfl
  | number x => rfl
  | varRef name => rfl
  | call function args => simp only [evalLevel, evalArgs_congr hagree hfocus]

end Index

end Agree

namespace Index

/-- An evaluator with whatever else put in its place beside the document: at a focus that is no
place of the document, and for values that are not sound. -/
def guarded (ix : Index) (stray inner : Evaluator) : Evaluator := fun e focus scope =>
  if focus.place.IsIn ix.doc then
    match inner e focus scope with
    | .ok v => if v.Sound ix.doc then .ok v else stray e focus scope
    | .error cause => .error cause
  else stray e focus scope

/-- Evaluation with every part of an expression guarded. -/
def evalGuarded (ix : Index) (stray : Evaluator) : Nat → Evaluator
  | 0 => fun _ _ _ => .error (.tooDeep depthLimit)
  | levels + 1 => ix.guarded stray (ix.evalLevel (ix.evalGuarded stray levels))

theorem guarded_eq {ix : Index} {stray inner : Evaluator} {e : Expr} {focus : Focus}
    (hfocus : focus.place.IsIn ix.doc)
    (hinner : ∀ v, inner e focus scope = .ok v → v.Sound ix.doc) :
    ix.guarded stray inner e focus scope = inner e focus scope := by
  rw [guarded, if_pos hfocus]
  rcases hv : inner e focus scope with cause | v
  · rfl
  · exact if_pos (hinner v hv)

/-- No part of an expression is evaluated beside the document, or has a value that is not
sound. -/
theorem evalGuarded_agree (h : d.Linked) (hscope : scope.Sound d) (stray : Evaluator) :
    ∀ levels : Nat, Evaluator.Agree d scope ((ofDocument d).evalGuarded stray levels)
      ((ofDocument d).eval levels)
  | 0 => fun _ _ _ => rfl
  | levels + 1 => by
    intro e focus hfocus
    have hlevel : (ofDocument d).evalLevel ((ofDocument d).evalGuarded stray levels) e focus scope =
        (ofDocument d).eval (levels + 1) e focus scope :=
      evalLevel_congr (evalGuarded_agree h hscope stray levels) h (eval_sound h hscope levels)
        e focus hfocus
    rw [← hlevel]
    refine guarded_eq hfocus fun v hv => ?_
    exact eval_sound h hscope (levels + 1) e focus v hfocus (hlevel ▸ hv)

/-- What is read at a place is there: the node, or the attribute with its text and name. -/
def Readable (ix : Index) : Place → Prop
  | .node n => ∃ node, ix.doc.nodes[n]? = some node
  | .attr n i => ∃ a, ix.attribute? n i = some a ∧ ix.placeText (.attr n i) = a.value ∧
      ix.placeName? (.attr n i) = some a.name

theorem readable_of_isIn {p : Place} (hp : p.IsIn d) : (ofDocument d).Readable p := by
  cases p with
  | node n => exact Document.exists_node hp
  | attr n i =>
    have hlt : i < ((ofDocument d).doc.attributes n).length := hp
    have ha : (ofDocument d).attribute? n i = some ((ofDocument d).doc.attributes n)[i] :=
      List.getElem?_eq_getElem hlt
    refine ⟨_, ha, ?_, ?_⟩
    · rw [placeText, ha]
    · rw [placeName?, ha]
      rfl

/-- At every place of a document that can be built, with variables whose sets of nodes are
node-sets of the document, a set of nodes that an expression has as its value is a node-set of the
document, and nothing is read beside the document on the way. -/
theorem eval_keeps_node_sets (hbuilt : Built d) (levels : Nat) (e : Expr) {focus : Focus}
    (hfocus : focus.place.IsIn d) (hscope : scope.Sound d) :
    (∀ ps, (ofDocument d).eval levels e focus scope = .ok (.nodes ps) →
      ps.Pairwise (Precedes d) ∧ ps.Nodup ∧ ∀ p ∈ ps, p.IsIn d ∧ (ofDocument d).Readable p) ∧
    ∀ stray : Evaluator, (ofDocument d).evalGuarded stray levels e focus scope =
      (ofDocument d).eval levels e focus scope := by
  have h := hbuilt.linked
  refine ⟨fun ps hps => ?_, fun stray => evalGuarded_agree h hscope stray levels e focus hfocus⟩
  have hset : IsNodeSet d ps := eval_sound h hscope levels e focus _ hfocus hps
  refine ⟨hset.ascending, hset.nodup h, fun p hp => ?_⟩
  exact ⟨hset.isIn p hp, readable_of_isIn (hset.isIn p hp)⟩

/-- On the shelf, whatever precedes some node, together with a variable that holds the identifier
of the first book: the identifier comes between the book and its text. -/
theorem eval_keeps_node_sets_of_shelf :
    (ofDocument .shelf).eval 2
      (.union (.path .root [.anywhere, .mk .preceding .anyNode []]) (.varRef "v"))
      (.single (.node 5)) (Scope.empty.push "v" (.nodes [.attr 2 0])) =
        .ok (.nodes [.node 2, .attr 2 0, .node 3, .node 4]) ∧
    [Place.node 2, .attr 2 0, .node 3, .node 4].Pairwise (Precedes .shelf) :=
  have heval : (ofDocument .shelf).eval 2
      (.union (.path .root [.anywhere, .mk .preceding .anyNode []]) (.varRef "v"))
      (.single (.node 5)) (Scope.empty.push "v" (.nodes [.attr 2 0])) =
        .ok (.nodes [.node 2, .attr 2 0, .node 3, .node 4]) := rfl
  have hscope : (Scope.empty.push "v" (.nodes [.attr 2 0])).Sound .shelf := by
    intro b hb
    obtain rfl := List.mem_singleton.1 hb
    have hset : IsNodeSet .shelf [.attr 2 0] := by decide
    exact hset
  ⟨heval, ((eval_keeps_node_sets Markup.built_shelf 2 _ (by decide) hscope).1 _ heval).1⟩

end Index

end MarkupRules.Query
