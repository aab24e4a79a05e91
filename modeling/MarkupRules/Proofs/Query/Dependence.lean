/-
# What a value depends on

One level of evaluation asks the parts of an expression for their values, at whatever focus, and
the scope for the variable if the expression is one; and it asks for nothing else. So wherever two
evaluations answer these questions alike, they come to the same value or the same error. If one of
them may fail where the other goes on, so may what it comes to, and with the same error.

By induction on the levels, only the variables that stand in an expression have a say in its value;
and a value that is there stays the same with more levels.

Key definitions: `SameUnless`, `Evaluator.SameOn`.

Key theorems: `evalLevel_sameUnless`, `eval_of_more_levels`, `eval_sees_own_variables`.
-/
import MarkupRules.Proofs.Markup.Built
import MarkupRules.Proofs.Query.Parts

namespace MarkupRules.Query

/-! ### Results that are the same up to some errors -/

section

variable {ε α β : Type} {excused : ε → Prop}

/-- Two results are the same, or the first is an error that is excused. -/
def SameUnless (excused : ε → Prop) (x y : Except ε α) : Prop :=
  x = y ∨ ∃ e, excused e ∧ x = .error e

namespace SameUnless

theorem refl (x : Except ε α) : SameUnless excused x x :=
  .inl rfl

theorem bind {x y : Except ε α} {f g : α → Except ε β} (hxy : SameUnless excused x y)
    (hfg : ∀ a, SameUnless excused (f a) (g a)) : SameUnless excused (x >>= f) (y >>= g) := by
  rcases hxy with rfl | ⟨e, he, rfl⟩
  · cases x with
    | error e => exact refl _
    | ok a => exact hfg a
  · exact .inr ⟨e, he, rfl⟩

/-- Without excuses results are the same. -/
theorem eq {x y : Except ε α} (h : SameUnless (fun _ => False) x y) : x = y := by
  rcases h with h | ⟨e, he, -⟩
  · exact h
  · exact he.elim

theorem eq_ok {x y : Except ε α} (h : SameUnless excused x y) {a : α} (hx : x = .ok a) :
    y = .ok a := by
  rcases h with rfl | ⟨e, -, he⟩
  · exact hx
  · rw [hx] at he
    cases he

end SameUnless

end

/-! ### One level -/

/-- Two evaluators, each with its own variables, give the same results for some expressions at
every focus, if the first has no excuse. -/
def Evaluator.SameOn (excused : QueryError → Prop) (sub sub' : Evaluator) (scope scope' : Scope)
    (es : List Expr) : Prop :=
  ∀ e ∈ es, ∀ focus, SameUnless excused (sub e focus scope) (sub' e focus scope')

variable {excused : QueryError → Prop} {sub sub' : Evaluator} {scope scope' : Scope}

theorem Evaluator.SameOn.of_subset {es fs : List Expr}
    (h : sub.SameOn excused sub' scope scope' fs) (hsub : es ⊆ fs) :
    sub.SameOn excused sub' scope scope' es :=
  fun e he => h e (hsub he)

theorem keep_sameUnless {predicate : Expr} {size : Nat}
    (h : ∀ focus, SameUnless excused (sub predicate focus scope) (sub' predicate focus scope')) :
    ∀ (position : Nat) (ps : List Place),
      SameUnless excused (keep sub scope predicate size position ps)
        (keep sub' scope' predicate size position ps)
  | _, [] => .refl _
  | position, p :: ps => by
    rw [keep, keep]
    exact (h _).bind fun _ => (keep_sameUnless h (position + 1) ps).bind fun _ => .refl _

theorem keepAll_sameUnless : ∀ {predicates : List Expr},
    sub.SameOn excused sub' scope scope' predicates → ∀ ps : List Place,
      SameUnless excused (keepAll sub scope predicates ps) (keepAll sub' scope' predicates ps)
  | [], _, _ => .refl _
  | predicate :: predicates, h, ps => by
    obtain ⟨hpredicate, hrest⟩ := List.forall_mem_cons.1 h
    rw [keepAll, keepAll]
    exact (keep_sameUnless hpredicate 1 ps).bind fun kept => keepAll_sameUnless hrest kept

theorem evalArgs_sameUnless {focus : Focus} : ∀ {args : List Expr},
    sub.SameOn excused sub' scope scope' args →
      SameUnless excused (evalArgs sub focus scope args) (evalArgs sub' focus scope' args)
  | [], _ => .refl _
  | e :: args, h => by
    obtain ⟨he, hrest⟩ := List.forall_mem_cons.1 h
    rw [evalArgs, evalArgs]
    exact (he focus).bind fun _ => (evalArgs_sameUnless hrest).bind fun _ => .refl _

namespace Index

variable {ix : Index}

theorem stepFromAll_sameUnless {s : Step}
    (h : sub.SameOn excused sub' scope scope' s.predicates) :
    ∀ ps : List Place, SameUnless excused (ix.stepFromAll sub scope s ps)
      (ix.stepFromAll sub' scope' s ps)
  | [] => .refl _
  | p :: ps => by
    rw [stepFromAll, stepFromAll]
    exact (keepAll_sameUnless h _).bind fun _ => (stepFromAll_sameUnless h ps).bind fun _ =>
      .refl _

theorem follow_sameUnless : ∀ {steps : List Step},
    sub.SameOn excused sub' scope scope' (steps.flatMap Step.predicates) → ∀ ps : List Place,
      SameUnless excused (ix.follow sub scope steps ps) (ix.follow sub' scope' steps ps)
  | [], _, _ => .refl _
  | s :: steps, h, ps => by
    rw [List.flatMap_cons] at h
    have hstep := h.of_subset (List.subset_append_left _ _)
    have hrest := h.of_subset (List.subset_append_right _ _)
    rw [follow, follow]
    exact (stepFromAll_sameUnless hstep ps).bind fun _ => follow_sameUnless hrest _

theorem startPlaces_sameUnless {focus : Focus} {start : Start}
    (h : sub.SameOn excused sub' scope scope' start.parts) :
    SameUnless excused (startPlaces sub focus scope start)
      (startPlaces sub' focus scope' start) := by
  cases start with
  | root => exact .refl _
  | context => exact .refl _
  | nodes e => exact (h e (List.mem_singleton_self e) focus).bind fun _ => .refl _

/-- Where the parts of an expression have the same values, so has the expression; if it is a
variable, it has to be bound alike. -/
theorem evalLevel_sameUnless {e : Expr} {focus : Focus}
    (hparts : sub.SameOn excused sub' scope scope' e.parts)
    (hself : ∀ name, e = .varRef name → scope.get? name = scope'.get? name) :
    SameUnless excused (ix.evalLevel sub e focus scope) (ix.evalLevel sub' e focus scope') := by
  have part {p : Expr} (hp : p ∈ e.parts) :
      SameUnless excused (sub p focus scope) (sub' p focus scope') := hparts p hp focus
  cases e with
  | or left right =>
    refine (part List.mem_cons_self).bind fun a => ?_
    split
    · exact .refl _
    · exact (part (List.mem_pair.2 (.inr rfl))).bind fun _ => .refl _
  | and left right =>
    refine (part List.mem_cons_self).bind fun a => ?_
    split
    · exact (part (List.mem_pair.2 (.inr rfl))).bind fun _ => .refl _
    · exact .refl _
  | compare op left right =>
    exact (part List.mem_cons_self).bind fun _ =>
      (part (List.mem_pair.2 (.inr rfl))).bind fun _ => .refl _
  | arith op left right =>
    exact (part List.mem_cons_self).bind fun _ =>
      (part (List.mem_pair.2 (.inr rfl))).bind fun _ => .refl _
  | negate operand => exact (part List.mem_cons_self).bind fun _ => .refl _
  | union left right =>
    exact (part List.mem_cons_self).bind fun _ => (SameUnless.refl _).bind fun _ =>
      (part (List.mem_pair.2 (.inr rfl))).bind fun _ => .refl _
  | path start steps =>
    have hstart := hparts.of_subset (List.subset_append_left _ _)
    have hsteps := hparts.of_subset (List.subset_append_right _ _)
    exact (startPlaces_sameUnless hstart).bind fun ps =>
      (follow_sameUnless hsteps ps).bind fun _ => .refl _
  | filter primary predicates =>
    have hpredicates := hparts.of_subset (List.subset_cons_self _ _)
    exact (part List.mem_cons_self).bind fun _ => (SameUnless.refl _).bind fun ps =>
      (keepAll_sameUnless hpredicates ps).bind fun _ => .refl _
  | literal body => exact .refl _
  | number x => exact .refl _
  | varRef name =>
    rw [evalLevel, evalLevel, hself name rfl]
    exact .refl _
  | call function args => exact (evalArgs_sameUnless hparts).bind fun _ => .refl _

/-! ### All levels -/

/-- With more levels an expression has the same value or the same error, unless there were too few
levels. -/
theorem eval_sameUnless_tooDeep : ∀ {levels more : Nat}, levels ≤ more →
    ∀ (e : Expr) (focus : Focus),
      SameUnless (· = .tooDeep depthLimit) (ix.eval levels e focus scope)
        (ix.eval more e focus scope)
  | 0, _, _, _, _ => .inr ⟨_, rfl, rfl⟩
  | _ + 1, 0, hle, _, _ => absurd hle (Nat.not_succ_le_zero _)
  | _ + 1, _ + 1, hle, _, _ =>
    evalLevel_sameUnless
      (fun part _ => eval_sameUnless_tooDeep (Nat.le_of_succ_le_succ hle) part) fun _ _ => rfl

/-- What has a value keeps it with more levels. -/
theorem eval_of_more_levels {levels more : Nat} (hle : levels ≤ more) {e : Expr} {focus : Focus}
    {v : Value} (h : ix.eval levels e focus scope = .ok v) :
    ix.eval more e focus scope = .ok v :=
  (eval_sameUnless_tooDeep hle e focus).eq_ok h

/-- With any variables that answer alike to the names that stand in an expression, in its operands,
arguments, starts and predicates at whatever depth, the expression has the same value or the same
error. -/
theorem eval_sees_own_variables (ix : Index) (levels : Nat) (e : Expr) (focus : Focus)
    (scope scope' : Scope)
    (hsame : ∀ name, e.Holds (.varRef name) → scope.get? name = scope'.get? name) :
    ix.eval levels e focus scope = ix.eval levels e focus scope' := by
  induction levels generalizing e focus with
  | zero => rfl
  | succ levels ih =>
    apply SameUnless.eq
    refine evalLevel_sameUnless (fun part hpart focus => .inl ?_) ?_
    · exact ih part focus fun name hname => hsame name (.of_mem hpart hname)
    · rintro name rfl
      exact hsame name .refl

/-- The book on the shelf that has the wanted identifier. One scope has another value of that name
underneath and a leftover on top, the other scope has neither. -/
theorem eval_sees_own_variables_on_shelf :
    let wanted : Expr := .compare .eq (.path .context [.mk .attr (.name none "id") []])
      (.varRef "wanted")
    let e : Expr := .path .root [.anywhere, .mk .child (.name none "book") [wanted]]
    let scope : Scope := ((Scope.empty.push "wanted" (.truth true)).push "wanted" (.text "a")).push
      "book" (.nodes [.node 5])
    let scope' : Scope := Scope.empty.push "wanted" (.text "a")
    (∀ name, e.Holds (.varRef name) → scope.get? name = scope'.get? name) ∧
      scope.get? "book" ≠ scope'.get? "book" ∧
      (ofDocument .shelf).eval 4 e (.single (.node 0)) scope = .ok (.nodes [.node 2]) ∧
      (ofDocument .shelf).eval 4 e (.single (.node 0)) scope' = .ok (.nodes [.node 2]) := by
  intro wanted e scope scope'
  have hsame : ∀ name, e.Holds (.varRef name) → scope.get? name = scope'.get? name := by
    intro name hholds
    rcases hholds.cases_head with heq | ⟨part, hpart, hholds⟩
    · exact Expr.noConfusion heq
    · obtain rfl : part = wanted := List.mem_singleton.1 hpart
      rcases hholds.cases_head with heq | ⟨side, hside, hholds⟩
      · exact Expr.noConfusion heq
      · rcases List.mem_pair.1 hside with rfl | rfl
        · rcases hholds.cases_head with heq | ⟨inner, hinner, -⟩
          · cases heq
          · cases hinner
        · rcases hholds.cases_head with heq | ⟨inner, hinner, -⟩
          · cases heq
            rfl
          · cases hinner
  have hvalue : (ofDocument .shelf).eval 4 e (.single (.node 0)) scope = .ok (.nodes [.node 2]) :=
    rfl
  refine ⟨hsame, by simp [scope, scope', Scope.get?, Scope.push, Scope.empty], hvalue, ?_⟩
  rw [← eval_sees_own_variables _ 4 e _ scope scope' hsame, hvalue]

end Index

end MarkupRules.Query
