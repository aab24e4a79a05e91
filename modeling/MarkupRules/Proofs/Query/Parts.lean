/-
# The expressions inside an expression

Evaluation goes down into the parts of an expression, one level at a time. An error comes up from
the expression that first had no value, so that whatever an evaluation complains about is found in
one of the expressions inside, or is that they are nested too deeply.

Key definitions: `Expr.parts`, `Expr.Holds`, `Expr.NestedWithin`, `Evaluator.FailsOn`, `Expr.Fails`.

Key theorems: `Index.evalLevel_fails`, `Index.eval_error`, `Index.eval_ne_tooDeep`.
-/
import MarkupRules.Proofs.Query.Calls
import MarkupRules.Query.Eval
import Mathlib.Logic.Relation

namespace MarkupRules.Query

/-! ### Parts -/

/-- The expression at whose nodes a path starts. -/
def Start.parts : Start → List Expr
  | .root | .context => []
  | .nodes e => [e]

/-- The expressions directly inside an expression. -/
def Expr.parts : Expr → List Expr
  | .or left right | .and left right | .union left right => [left, right]
  | .compare _ left right | .arith _ left right => [left, right]
  | .negate operand => [operand]
  | .path start steps => start.parts ++ steps.flatMap Step.predicates
  | .filter primary predicates => primary :: predicates
  | .literal _ | .number _ | .varRef _ => []
  | .call _ args => args

/-- An expression is another one, or stands anywhere inside it. -/
def Expr.Holds : Expr → Expr → Prop :=
  Relation.ReflTransGen fun e part => part ∈ e.parts

theorem Expr.Holds.of_mem {e part inner : Expr} (hpart : part ∈ e.parts) (h : part.Holds inner) :
    e.Holds inner :=
  Relation.ReflTransGen.head hpart h

/-- Expressions stand inside an expression at most as deep as a number of levels, its own level
counted. -/
def Expr.NestedWithin : Nat → Expr → Prop
  | 0, _ => False
  | levels + 1, e => ∀ part ∈ e.parts, NestedWithin levels part

instance Expr.decidableNestedWithin : ∀ (levels : Nat) (e : Expr), Decidable (NestedWithin levels e)
  | 0, _ => inferInstanceAs (Decidable False)
  | levels + 1, e =>
    have := decidableNestedWithin levels
    inferInstanceAs (Decidable (∀ part ∈ e.parts, NestedWithin levels part))

theorem Expr.NestedWithin.mono : ∀ {levels more : Nat} {e : Expr}, levels ≤ more →
    NestedWithin levels e → NestedWithin more e
  | 0, _, _, _, h => h.elim
  | _ + 1, 0, _, hle, _ => absurd hle (Nat.not_succ_le_zero _)
  | _ + 1, _ + 1, _, hle, h => fun part hpart => (h part hpart).mono (Nat.le_of_succ_le_succ hle)

/-! ### Errors come from parts -/

variable {sub : Evaluator} {scope : Scope} {kind : QueryError → Prop}

/-- An evaluator fails for some expressions only by a kind of errors, at every focus. -/
def Evaluator.FailsOn (kind : QueryError → Prop) (sub : Evaluator) (scope : Scope)
    (es : List Expr) : Prop :=
  ∀ e ∈ es, ∀ focus, FailsOnlyBy kind (sub e focus scope)

theorem Evaluator.FailsOn.of_subset {es fs : List Expr} (h : sub.FailsOn kind scope fs)
    (hsub : es ⊆ fs) : sub.FailsOn kind scope es :=
  fun e he => h e (hsub he)

theorem keep_fails {predicate : Expr} {size : Nat}
    (h : ∀ focus, FailsOnlyBy kind (sub predicate focus scope)) :
    ∀ (position : Nat) (ps : List Place),
      FailsOnlyBy kind (keep sub scope predicate size position ps)
  | _, [] => .ok _
  | position, _ :: ps =>
    .bind (h _) fun _ => .bind (keep_fails h (position + 1) ps) fun _ => .ok _

theorem keepAll_fails : ∀ {predicates : List Expr}, sub.FailsOn kind scope predicates →
    ∀ ps : List Place, FailsOnlyBy kind (keepAll sub scope predicates ps)
  | [], _, _ => .ok _
  | _ :: _, h, ps =>
    have ⟨hpredicate, hrest⟩ := List.forall_mem_cons.1 h
    .bind (keep_fails hpredicate 1 ps) fun kept => keepAll_fails hrest kept

theorem evalArgs_fails {focus : Focus} : ∀ {args : List Expr}, sub.FailsOn kind scope args →
    FailsOnlyBy kind (evalArgs sub focus scope args)
  | [], _ => .ok _
  | _ :: _, h =>
    have ⟨he, hrest⟩ := List.forall_mem_cons.1 h
    .bind (he focus) fun _ => .bind (evalArgs_fails hrest) fun _ => .ok _

theorem length_evalArgs {focus : Focus} : ∀ {args : List Expr} {vs : List Value},
    evalArgs sub focus scope args = .ok vs → vs.length = args.length
  | [], _, h => by
    cases h
    rfl
  | _ :: _, _, h => by
    obtain ⟨v, -, h⟩ := bind_eq_ok_iff.1 h
    obtain ⟨more, hmore, h⟩ := bind_eq_ok_iff.1 h
    cases h
    rw [List.length_cons, List.length_cons, length_evalArgs hmore]

theorem asNodes_fails (h : ∀ found, kind (.notNodes found)) (v : Value) :
    FailsOnlyBy kind (asNodes v) := by
  intro cause hcause
  cases v <;> cases hcause
  all_goals exact h _

namespace Index

variable {ix : Index}

theorem stepFromAll_fails {s : Step} (h : sub.FailsOn kind scope s.predicates) :
    ∀ ps : List Place, FailsOnlyBy kind (ix.stepFromAll sub scope s ps)
  | [] => .ok _
  | _ :: ps => .bind (keepAll_fails h _) fun _ => .bind (stepFromAll_fails h ps) fun _ => .ok _

theorem follow_fails : ∀ {steps : List Step},
    sub.FailsOn kind scope (steps.flatMap Step.predicates) → ∀ ps : List Place,
      FailsOnlyBy kind (ix.follow sub scope steps ps)
  | [], _, _ => .ok _
  | s :: steps, h, ps => by
    rw [List.flatMap_cons] at h
    have hstep := h.of_subset (List.subset_append_left _ _)
    have hrest := h.of_subset (List.subset_append_right _ _)
    exact .bind (stepFromAll_fails hstep ps) fun _ => follow_fails hrest _

theorem startPlaces_fails {focus : Focus} {start : Start}
    (h : sub.FailsOn kind scope start.parts) (hnodes : ∀ found, kind (.notNodes found)) :
    FailsOnlyBy kind (startPlaces sub focus scope start) := by
  cases start with
  | root => exact .ok _
  | context => exact .ok _
  | nodes e =>
    exact .bind (h e (List.mem_singleton_self e) focus) fun v => asNodes_fails hnodes v

end Index

/-! ### Evaluation -/

/-- What an expression itself complains about, when its parts have values: that one of them is no
set of nodes, that a variable is not bound, or what a function makes of its arguments. -/
inductive Expr.Fails (ix : Index) (scope : Scope) : Expr → QueryError → Prop where
  | notNodes {e : Expr} (found : String) : Fails ix scope e (.notNodes found)
  | unbound {name : String} : scope.get? name = none →
      Fails ix scope (.varRef name) (.unboundVariable name)
  | call {f args focus vs cause} : vs.length = args.length →
      ix.call f.label focus vs = .error cause → Fails ix scope (.call f args) cause

theorem Expr.Fails.ne_tooDeep {ix : Index} {e : Expr} {cause : QueryError} {limit : Nat}
    (h : e.Fails ix scope cause) : cause ≠ .tooDeep limit := by
  rintro rfl
  cases h with
  | call _ h =>
    rcases Index.call_error h with ⟨hunknown, -⟩ | ⟨s, -, ⟨found, hfound⟩ | ⟨harity, -⟩⟩
    · cases hunknown
    · cases hfound
    · cases harity

namespace Index

variable {ix : Index}

/-- A level of evaluation fails by errors of the parts and of the expression itself. -/
theorem evalLevel_fails {e : Expr} {focus : Focus} (hparts : sub.FailsOn kind scope e.parts)
    (hself : ∀ cause, e.Fails ix scope cause → kind cause) :
    FailsOnlyBy kind (ix.evalLevel sub e focus scope) := by
  have part {p : Expr} (hp : p ∈ e.parts) : FailsOnlyBy kind (sub p focus scope) :=
    hparts p hp focus
  -- A level complains of itself where it asks other values for nodes, at names that are not bound
  -- and in calls.
  have hnodes (found : String) : kind (.notNodes found) := hself _ (.notNodes found)
  cases e with
  | or left right =>
    refine .bind (part List.mem_cons_self) fun a => ?_
    split
    · exact .ok _
    · exact .bind (part (List.mem_pair.2 (.inr rfl))) fun _ => .ok _
  | and left right =>
    refine .bind (part List.mem_cons_self) fun a => ?_
    split
    · exact .bind (part (List.mem_pair.2 (.inr rfl))) fun _ => .ok _
    · exact .ok _
  | compare op left right =>
    exact .bind (part List.mem_cons_self) fun _ =>
      .bind (part (List.mem_pair.2 (.inr rfl))) fun _ => .ok _
  | arith op left right =>
    exact .bind (part List.mem_cons_self) fun _ =>
      .bind (part (List.mem_pair.2 (.inr rfl))) fun _ => .ok _
  | negate operand => exact .bind (part List.mem_cons_self) fun _ => .ok _
  | union left right =>
    exact .bind (part List.mem_cons_self) fun _ => .bind (asNodes_fails hnodes _) fun _ =>
      .bind (part (List.mem_pair.2 (.inr rfl))) fun _ => .bind (asNodes_fails hnodes _) fun _ =>
        .ok _
  | path start steps =>
    have hstart := hparts.of_subset (List.subset_append_left _ _)
    have hsteps := hparts.of_subset (List.subset_append_right _ _)
    exact .bind (startPlaces_fails hstart hnodes) fun ps => .bind (follow_fails hsteps ps) fun _ =>
      .ok _
  | filter primary predicates =>
    have hpredicates := hparts.of_subset (List.subset_cons_self _ _)
    exact .bind (part List.mem_cons_self) fun _ => .bind (asNodes_fails hnodes _) fun ps =>
      .bind (keepAll_fails hpredicates ps) fun _ => .ok _
  | literal body => exact .ok _
  | number x => exact .ok _
  | varRef name =>
    unfold evalLevel
    dsimp only
    split
    · exact .ok _
    · next hname =>
      rintro cause ⟨⟩
      exact hself _ (.unbound hname)
  | call f args =>
    intro cause h
    rcases bind_eq_error_iff.1 h with hargs | ⟨vs, hvs, hcall⟩
    · exact evalArgs_fails hparts cause hargs
    · exact hself cause (.call (length_evalArgs hvs) hcall)

/-- Whatever an evaluation complains about is what an expression inside complains about, or that
there are too many levels. -/
theorem eval_error : ∀ {levels : Nat} {e : Expr} {focus : Focus} {cause : QueryError},
    ix.eval levels e focus scope = .error cause →
      cause = .tooDeep depthLimit ∨ ∃ inner, e.Holds inner ∧ inner.Fails ix scope cause
  | 0, _, _, _, h => by
    cases h
    exact .inl rfl
  | levels + 1, e, focus, cause, h => by
    have hfails : FailsOnlyBy (fun cause => cause = .tooDeep depthLimit ∨
        ∃ inner, e.Holds inner ∧ inner.Fails ix scope cause)
        (ix.eval (levels + 1) e focus scope) := by
      refine evalLevel_fails (fun part hpart focus cause herror => ?_) fun cause hself =>
        .inr ⟨e, .refl, hself⟩
      rcases eval_error herror with hdeep | ⟨inner, hholds, hinner⟩
      · exact .inl hdeep
      · exact .inr ⟨inner, .of_mem hpart hholds, hinner⟩
    exact hfails cause h

/-- With as many levels as expressions are inside each other, there are enough of them. -/
theorem eval_ne_tooDeep {limit : Nat} : ∀ {levels : Nat} {e : Expr} {focus : Focus},
    e.NestedWithin levels → ix.eval levels e focus scope ≠ .error (.tooDeep limit)
  | 0, _, _, hdeep, _ => hdeep.elim
  | levels + 1, e, focus, hdeep, h => by
    have hfails : FailsOnlyBy (· ≠ .tooDeep limit) (ix.eval (levels + 1) e focus scope) := by
      refine evalLevel_fails (fun part hpart focus cause herror => ?_) fun _ hself =>
        hself.ne_tooDeep
      rintro rfl
      exact eval_ne_tooDeep (hdeep part hpart) herror
    exact hfails _ h rfl

end Index

end MarkupRules.Query
