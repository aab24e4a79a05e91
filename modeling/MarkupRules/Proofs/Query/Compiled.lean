/-
# Compiled expressions

An expression that compiles is written by the tokens of its text, and from the rules by which they
write it three things are read off: every call in it was checked, a path in it that goes on from
the nodes of an expression has steps, and it is nested at most as deep as it has tokens. The first
leaves nothing static that could go wrong when it is evaluated.

Key definitions: `Expr.Checked`, `Expr.Sized`, `Phrase.Inside`.
Key theorems: `sized_writes`, `sized_of_parse`, `sized_of_compile`, `callable_of_compile`,
`compiled_fails_dynamically`.
-/
import MarkupRules.Proofs.Markup.Built
import MarkupRules.Proofs.Query.Parsing.Sound
import MarkupRules.Proofs.Query.Parts

namespace MarkupRules.Query

/-- A call is one that a dialect has, and a path from the nodes of an expression has steps; other
expressions need no check of their own. -/
def Expr.Checked (dialect : Dialect) : Expr → Prop
  | .call f args => Callable dialect f.label args.length
  | .path (.nodes _) steps => steps ≠ []
  | _ => True

/-- An expression is nested within a number of levels, and the calls and paths in it are
checked. -/
structure Expr.Sized (dialect : Dialect) (size : Nat) (e : Expr) : Prop where
  /-- There are enough levels. -/
  nested : e.NestedWithin size
  /-- Every call and every path is checked. -/
  checked : ∀ inner, e.Holds inner → inner.Checked dialect

/-- An expression has a size below a number. -/
def Expr.Smaller (dialect : Dialect) (size : Nat) (e : Expr) : Prop :=
  ∃ less < size, e.Sized dialect less

theorem Expr.Smaller.mono {dialect : Dialect} {size more : Nat} {e : Expr}
    (h : e.Smaller dialect size) (hle : size ≤ more) : e.Smaller dialect more := by
  obtain ⟨less, hless, h⟩ := h
  exact ⟨less, Nat.lt_of_lt_of_le hless hle, h⟩

variable {dialect : Dialect} {context : Context} {nested phrase : Phrase Expr}

namespace Expr.Sized

theorem mono {size more : Nat} {e : Expr} (h : e.Sized dialect size) (hle : size ≤ more) :
    e.Sized dialect more :=
  ⟨h.nested.mono hle, h.checked⟩

theorem smaller {size more : Nat} {e : Expr} (h : e.Sized dialect size) (hlt : size < more) :
    e.Smaller dialect more :=
  ⟨size, hlt, h⟩

/-- An expression is larger than its parts, and needs no more than a check of its own. -/
theorem of_parts {size : Nat} {e : Expr} (hsize : 0 < size) (hself : e.Checked dialect)
    (hparts : ∀ part ∈ e.parts, part.Smaller dialect size) : e.Sized dialect size := by
  obtain ⟨size, rfl⟩ := Nat.exists_eq_add_one.2 hsize
  refine ⟨fun part hpart => ?_, fun inner hinner => ?_⟩
  · obtain ⟨less, hless, hpart⟩ := hparts part hpart
    exact hpart.nested.mono (Nat.le_of_lt_succ hless)
  · rcases Relation.ReflTransGen.cases_head hinner with rfl | ⟨part, hpart, hinner⟩
    · exact hself
    · obtain ⟨less, -, hpart⟩ := hparts part hpart
      exact hpart.checked inner hinner

end Expr.Sized

/-! ### What tokens write -/

/-- What a phrase writes is no larger than the number of its tokens. -/
def Phrase.Sized (dialect : Dialect) (phrase : Phrase Expr) : Prop :=
  ∀ ⦃w e⦄, phrase w e → e.Sized dialect w.length

/-- The expressions inside what a phrase writes are smaller than the number of its tokens. -/
def Phrase.Inside {α : Type} (dialect : Dialect) (parts : α → List Expr) (phrase : Phrase α) :
    Prop :=
  ∀ ⦃w a⦄, phrase w a → ∀ part ∈ parts a, part.Smaller dialect w.length

theorem Joins.parts_eq {tier : Tier} {t : Token} {combine : Expr → Expr → Expr}
    (h : Joins tier t combine) (left right : Expr) : (combine left right).parts = [left, right] := by
  cases h <;> rfl

theorem Joins.checked {tier : Tier} {t : Token} {combine : Expr → Expr → Expr}
    (h : Joins tier t combine) (left right : Expr) : (combine left right).Checked dialect := by
  cases h <;> trivial

/-- What leads to a step brings no predicates with it. -/
theorem Leads.predicates_eq {t : Token} {between : List Step} (h : Leads t between) :
    between.flatMap Step.predicates = [] := by
  cases h <;> rfl

theorem WritesTest.length_pos {w : List Token} {test : NodeTest} (h : WritesTest context w test) :
    0 < w.length := by
  cases h <;> exact Nat.succ_pos _

theorem WritesSteps.length_pos {w : List Token} {steps : List Step}
    (h : WritesSteps context nested w steps) : 0 < w.length := by
  cases h with
  | one hs =>
    cases hs with
    | self => exact Nat.zero_lt_one
    | parent => exact Nat.zero_lt_one
    | full _ htest =>
      have := htest.length_pos
      simp only [List.length_append]
      omega
  | more =>
    simp only [List.length_append, List.length_cons]
    omega

theorem WritesSteps.ne_nil {w : List Token} {steps : List Step}
    (h : WritesSteps context nested w steps) : steps ≠ [] := by
  cases h <;> exact List.cons_ne_nil _ _

theorem sized_joined (tier : Tier) (h : phrase.Sized dialect) :
    Phrase.Sized dialect (WritesJoined tier phrase) := by
  intro w e hwrites
  induction hwrites with
  | one hone => exact h hone
  | @more w left t combine v right _ hjoins hright ih =>
    have hlength : (w ++ t :: v).length = w.length + (v.length + 1) := by simp
    refine .of_parts (by omega) (hjoins.checked left right) fun part hpart => ?_
    rw [hjoins.parts_eq] at hpart
    rcases List.mem_pair.1 hpart with rfl | rfl
    · exact ih.smaller (by omega)
    · exact (h hright).smaller (by omega)

theorem sized_signed (h : phrase.Sized dialect) :
    Phrase.Sized dialect (WritesSigned phrase) := by
  intro w e hwrites
  induction hwrites with
  | plain hplain => exact h hplain
  | minus _ ih =>
    refine .of_parts (Nat.succ_pos _) trivial fun part hpart => ?_
    obtain rfl := List.mem_singleton.1 hpart
    exact ih.smaller (Nat.lt_succ_self _)

section Nested

variable (h : nested.Sized dialect)

include h

theorem inside_predicates : Phrase.Inside dialect id (WritesPredicates nested) := by
  intro w es hwrites
  induction hwrites with
  | none => simp
  | @more w e v es he _ ih =>
    have hlength : (.leftBracket :: w ++ .rightBracket :: v : List Token).length =
        w.length + (v.length + 1) + 1 := by simp
    intro part hpart
    rcases List.mem_cons.1 hpart with rfl | hpart
    · exact (h he).smaller (by omega)
    · exact (ih part hpart).mono (by omega)

theorem inside_arguments : Phrase.Inside dialect id (WritesArguments nested) := by
  intro w es hwrites
  induction hwrites with
  | last he =>
    intro part hpart
    obtain rfl := List.mem_singleton.1 hpart
    exact (h he).smaller (by simp)
  | @more w e v es he _ ih =>
    have hlength : (w ++ .comma :: v).length = w.length + (v.length + 1) := by simp
    intro part hpart
    rcases List.mem_cons.1 hpart with rfl | hpart
    · exact (h he).smaller (by omega)
    · exact (ih part hpart).mono (by omega)

theorem inside_argumentList : Phrase.Inside dialect id (WritesArgumentList nested) := by
  intro w es hwrites part hpart
  cases hwrites with
  | none => cases hpart
  | some hargs => exact (inside_arguments h hargs part hpart).mono (Nat.le_succ _)

theorem inside_step : Phrase.Inside dialect Step.predicates (WritesStep context nested) := by
  intro w s hwrites part hpart
  cases hwrites with
  | self => cases hpart
  | parent => cases hpart
  | @full u axis v test w predicates _ _ hpredicates =>
    have hlength : (u ++ (v ++ w)).length = u.length + (v.length + w.length) := by simp
    exact (inside_predicates h hpredicates part hpart).mono (by omega)

theorem inside_steps :
    Phrase.Inside dialect (List.flatMap Step.predicates) (WritesSteps context nested) := by
  intro w steps hwrites
  induction hwrites with
  | one hs => simpa using inside_step h hs
  | @more w s t between v steps hs hleads _ ih =>
    have hlength : (w ++ t :: v).length = w.length + (v.length + 1) := by simp
    intro part hpart
    rw [List.flatMap_cons, List.flatMap_append, hleads.predicates_eq, List.nil_append] at hpart
    rcases List.mem_append.1 hpart with hpart | hpart
    · exact (inside_step h hs part hpart).mono (by omega)
    · exact (ih part hpart).mono (by omega)

end Nested

section Expressions

variable (h : nested.Sized context.dialect)

include h

theorem sized_primary : Phrase.Sized context.dialect (WritesPrimary context nested) := by
  intro w e hwrites
  cases hwrites with
  | varRef name => exact .of_parts Nat.zero_lt_one trivial (List.forall_mem_nil _)
  | literal body => exact .of_parts Nat.zero_lt_one trivial (List.forall_mem_nil _)
  | number digits => exact .of_parts Nat.zero_lt_one trivial (List.forall_mem_nil _)
  | parens he => exact (h he).mono (by simp; omega)
  | call hargs hcallable =>
    refine .of_parts (Nat.succ_pos _) hcallable fun part hpart => ?_
    exact (inside_argumentList h hargs part hpart).mono (Nat.le_succ _)

theorem sized_filter : Phrase.Sized context.dialect (WritesFilter context nested) := by
  intro w e hwrites
  cases hwrites with
  | bare hprimary => exact sized_primary h hprimary
  | @filter w e v predicates hprimary hpredicates hsome =>
    have hlength : (w ++ v).length = w.length + v.length := List.length_append
    have hback : 0 < v.length := by
      cases hpredicates with
      | none => exact absurd rfl hsome
      | more => exact Nat.succ_pos _
    refine .of_parts (by omega) trivial fun part hpart => ?_
    rcases List.mem_cons.1 hpart with rfl | hpart
    · exact (sized_primary h hprimary).smaller (by omega)
    · exact (inside_predicates h hpredicates part hpart).mono (by omega)

theorem sized_path : Phrase.Sized context.dialect (WritesPath context nested) := by
  intro w e hwrites
  cases hwrites with
  | root => exact .of_parts Nat.zero_lt_one trivial (List.forall_mem_nil _)
  | fromRoot hleads hsteps =>
    refine .of_parts (Nat.succ_pos _) trivial fun part hpart => ?_
    have hinside : part ∈ List.flatMap Step.predicates _ := hpart
    rw [List.flatMap_append, hleads.predicates_eq, List.nil_append] at hinside
    exact (inside_steps h hsteps part hinside).mono (Nat.le_succ _)
  | bare hfilter => exact sized_filter h hfilter
  | @fromNodes w e t between v steps hfilter hleads hsteps =>
    have hlength : (w ++ t :: v).length = w.length + (v.length + 1) := by simp
    have hsome : between ++ steps ≠ [] := List.append_ne_nil_of_right_ne_nil _ hsteps.ne_nil
    refine .of_parts (by omega) hsome fun part hpart => ?_
    rcases List.mem_cons.1 hpart with rfl | hpart
    · exact (sized_filter h hfilter).smaller (by omega)
    · have hinside : part ∈ List.flatMap Step.predicates _ := hpart
      rw [List.flatMap_append, hleads.predicates_eq, List.nil_append] at hinside
      exact (inside_steps h hsteps part hinside).mono (by omega)
  | relative hsteps =>
    refine .of_parts hsteps.length_pos trivial fun part hpart => ?_
    exact inside_steps h hsteps part hpart

theorem sized_writesExpr : Phrase.Sized context.dialect (WritesExpr context nested) := by
  have hsigned := sized_signed (sized_joined .union (sized_path h))
  have hsum := sized_joined .sum (sized_joined .product hsigned)
  have hequality := sized_joined .equality (sized_joined .order hsum)
  exact sized_joined .disjunction (sized_joined .conjunction hequality)

end Expressions

/-- What tokens write is nested at most as deep as there are tokens, and its calls and paths are
checked. -/
theorem sized_writes : ∀ depth : Nat, Phrase.Sized context.dialect (Writes context depth)
  | 0 => fun _ _ h => h.elim
  | depth + 1 => sized_writesExpr (sized_writes depth)

/-! ### Compiled texts -/

/-- A text has at most as many tokens as the tokenizer tries to take. -/
theorem length_tokenizeFrom : ∀ {fuel position : Nat} {operatorAllowed : Bool} {cs : List Char}
    {ts : List Located}, tokenizeFrom fuel position operatorAllowed cs = .ok ts → ts.length ≤ fuel
  | 0, _, _, _, _, h => by
    cases h
    exact Nat.le_refl 0
  | fuel + 1, _, _, _, _, h => by
    unfold tokenizeFrom at h
    dsimp only at h
    split at h
    · cases h
    · split at h
      · cases h
        exact Nat.succ_pos fuel
      · obtain ⟨more, hmore, rfl⟩ := map_eq_ok_iff.1 h
        exact Nat.succ_le_succ (length_tokenizeFrom hmore)

theorem compile_eq_ok_iff {source : String} {q : Query} :
    compile source context = .ok q ↔
      ∃ ts, tokenize source = .ok ts ∧ parse context ts = .ok q.expr ∧ q.source = source := by
  unfold compile
  constructor
  · intro h
    obtain ⟨ts, hts, h⟩ := bind_eq_ok_iff.1 h
    obtain ⟨e, he, h⟩ := bind_eq_ok_iff.1 h
    cases h
    exact ⟨ts, hts, he, rfl⟩
  · rintro ⟨ts, hts, he, rfl⟩
    exact bind_eq_ok_iff.2 ⟨ts, hts, bind_eq_ok_iff.2 ⟨q.expr, he, rfl⟩⟩

/-- A parsed expression is nested at most as deep as there are tokens, and its calls and paths are
checked. -/
theorem sized_of_parse {ts : List Located} {e : Expr} (h : parse context ts = .ok e) :
    e.Sized context.dialect ts.length := by
  obtain ⟨⟨found, rest⟩, hfound, hends⟩ := bind_eq_ok_iff.1 h
  obtain ⟨w, hw, hwrites⟩ := sound_parseExpr depthLimit hfound
  have hexpr : found = e := by
    dsimp only at hends
    split at hends
    · cases hends
      rfl
    · cases hends
  have hlength := hw.length_eq
  rw [← hexpr]
  exact (sized_writes depthLimit hwrites).mono (by omega)

/-- A compiled expression is nested at most as deep as its text is long, with one more level for
the end of the text, and its calls and paths are checked. -/
theorem sized_of_compile {source : String} {q : Query} (h : compile source context = .ok q) :
    q.expr.Sized context.dialect (source.length + 1) := by
  obtain ⟨ts, hts, hparse, -⟩ := compile_eq_ok_iff.1 h
  have htokens : ts.length ≤ source.length + 1 := by
    rw [← String.length_toList]
    exact length_tokenizeFrom hts
  exact (sized_of_parse hparse).mono htokens

section Calls

variable {source : String} {q : Query} (h : compile source context = .ok q) {f : Callee}
  {args : List Expr} (hcall : q.expr.Holds (.call f args))

include h hcall

/-- Every call in a compiled expression was checked. -/
theorem callable_of_compile : Callable context.dialect f.label args.length :=
  (sized_of_compile h).checked _ hcall

/-- A call in a compiled expression, given a value for each of its arguments, never misses one. -/
theorem call_error_of_compile {ix : Index} {focus : Focus} {vs : List Value}
    (hvs : vs.length = args.length) {cause : QueryError}
    (herror : ix.call f.label focus vs = .error cause) : ∃ found, cause = .notNodes found :=
  Index.call_error_of_callable (hvs ▸ callable_of_compile h hcall) herror

end Calls

/-- The evaluation of a compiled expression gives a value, or meets a variable of the expression
that is not bound, a value that is no set of nodes where one is needed, or too many levels. Every
call in it finds the function that its dialect has under that name, and is given the arguments
that this function reads. -/
theorem compiled_fails_dynamically {source : String} {context : Context} {q : Query}
    (h : compile source context = .ok q) (ix : Index) (p : Place) (scope : Scope) :
    ((∃ v, ix.evaluate q p scope = .ok v) ∨
      (∃ name, ix.evaluate q p scope = .error (.unboundVariable name) ∧
        q.expr.Holds (.varRef name) ∧ scope.get? name = none) ∨
      (∃ found, ix.evaluate q p scope = .error (.notNodes found)) ∨
      ix.evaluate q p scope = .error (.tooDeep depthLimit)) ∧
    ∀ f args, q.expr.Holds (.call f args) →
      (∃ s, lookup? f.label context.dialect = some s ∧ function? f.label = some s ∧
        s.builtin.reads ≤ args.length) ∧
      ∀ (focus : Focus) (vs : List Value), vs.length = args.length →
        ∀ cause, ix.call f.label focus vs = .error cause → ∃ found, cause = .notNodes found := by
  refine ⟨?_, fun f args hcall => ⟨(callable_of_compile h hcall).found,
    fun focus vs hvs cause => call_error_of_compile h hcall hvs⟩⟩
  cases hvalue : ix.evaluate q p scope with
  | ok v => exact .inl ⟨v, rfl⟩
  | error cause =>
    right
    rcases Index.eval_error hvalue with rfl | ⟨inner, hinner, hfails⟩
    · exact .inr (.inr rfl)
    · cases hfails with
      | notNodes found => exact .inr (.inl ⟨found, rfl⟩)
      | unbound hname => exact .inl ⟨_, rfl, hinner, hname⟩
      | call hvs herror =>
        obtain ⟨found, rfl⟩ := call_error_of_compile h hinner hvs herror
        exact .inr (.inl ⟨found, rfl⟩)

/-- The books of the shelf, with a function of the modern dialect and a variable that is not
bound. -/
theorem compiled_fails_dynamically_on_shelf :
    let reference : Expr := .varRef "wanted"
    let books : Expr := .path .root [Step.anywhere, .mk .child (.name none "book") []]
    let joined : Expr := .call ⟨"string-join"⟩ [books]
    let q : Query := ⟨"string-join(//book) = $wanted", .compare .eq joined reference⟩
    compile "string-join(//book) = $wanted" (.ofDialect .modern) = .ok q ∧
      (Index.ofDocument .shelf).evaluate q (.node 0) .empty = .error (.unboundVariable "wanted") ∧
      q.expr.Holds reference ∧ q.expr.Holds joined ∧
      ∃ s, lookup? "string-join" .modern = some s ∧ function? "string-join" = some s ∧
        s.builtin.reads ≤ 1 := by
  intro reference books joined q
  have htokens : tokenize "string-join(//book) = $wanted" = .ok
      [⟨.name none "string-join", 0⟩, ⟨.leftParen, 11⟩, ⟨.doubleSlash, 12⟩,
        ⟨.name none "book", 14⟩, ⟨.rightParen, 18⟩, ⟨.equal, 20⟩, ⟨.varRef "wanted", 22⟩,
        ⟨.eof, 29⟩] := rfl
  have hcompiled : compile "string-join(//book) = $wanted" (.ofDialect .modern) = .ok q :=
    compile_eq_ok_iff.2 ⟨_, htokens, rfl, rfl⟩
  have hvalue : (Index.ofDocument .shelf).evaluate q (.node 0) .empty =
      .error (.unboundVariable "wanted") := rfl
  have hjoined : q.expr.Holds joined := .of_mem List.mem_cons_self .refl
  obtain ⟨hfails, hcalls⟩ :=
    compiled_fails_dynamically hcompiled (.ofDocument .shelf) (.node 0) .empty
  refine ⟨hcompiled, hvalue, ?_, hjoined, (hcalls _ _ hjoined).1⟩
  rw [hvalue] at hfails
  rcases hfails with ⟨v, hv⟩ | ⟨name, hname, hholds, -⟩ | ⟨found, hfound⟩ | hdeep
  · cases hv
  · cases hname
    exact hholds
  · cases hfound
  · cases hdeep

end MarkupRules.Query
