/-
# Expressions in richer contexts

A context is richer than another one if all labels that are bound there are bound in it to the same
namespaces, and if it has all the functions that are known there. The grammar asks a context for
nothing else, rule by rule, so that whatever is written in a context is written in the same way in
a richer one, and compiles to the same expression.

Key definitions: `Context.Enriched`, `Phrase.Keeps`.

Key theorems: `Writes.enriched`, `compile_enriched`, `legacy_compiles_in_richer_contexts`.
-/
import MarkupRules.Proofs.Query.Coverage

namespace MarkupRules.Query

/-- A context in which everything is understood that is understood in another one, and in the same
way. -/
structure Context.Enriched (c c' : Context) : Prop where
  /-- Functions of the modern dialect remain known. -/
  functions : c.dialect = .modern → c'.dialect = .modern
  /-- Labels remain bound to their namespaces. -/
  bindings : ∀ label uri, c.bindings.get? label = some uri → c'.bindings.get? label = some uri

/-- What one phrase writes the other writes as well. -/
def Phrase.Keeps {α : Type} (phrase phrase' : Phrase α) : Prop :=
  ∀ ⦃w a⦄, phrase w a → phrase' w a

variable {c c' : Context} {nested nested' phrase phrase' : Phrase Expr}

/-! ### Rules that ask for no context -/

theorem WritesJoined.keeps (tier : Tier) (h : phrase.Keeps phrase') :
    Phrase.Keeps (WritesJoined tier phrase) (WritesJoined tier phrase') := by
  intro w e hwrites
  induction hwrites with
  | one hone => exact .one (h hone)
  | more _ hjoins hright ih => exact .more ih hjoins (h hright)

theorem WritesSigned.keeps (h : phrase.Keeps phrase') :
    Phrase.Keeps (WritesSigned phrase) (WritesSigned phrase') := by
  intro w e hwrites
  induction hwrites with
  | plain hplain => exact .plain (h hplain)
  | minus _ ih => exact .minus ih

theorem WritesPredicates.keeps (h : nested.Keeps nested') :
    Phrase.Keeps (WritesPredicates nested) (WritesPredicates nested') := by
  intro w es hwrites
  induction hwrites with
  | none => exact .none
  | more he _ ih => exact .more (h he) ih

theorem WritesArguments.keeps (h : nested.Keeps nested') :
    Phrase.Keeps (WritesArguments nested) (WritesArguments nested') := by
  intro w es hwrites
  induction hwrites with
  | last he => exact .last (h he)
  | more he _ ih => exact .more (h he) ih

theorem WritesArgumentList.keeps (h : nested.Keeps nested') :
    Phrase.Keeps (WritesArgumentList nested) (WritesArgumentList nested') := by
  intro w es hwrites
  cases hwrites with
  | none => exact .none
  | some hargs => exact .some (WritesArguments.keeps h hargs)

/-! ### Labels and functions -/

/-- A function remains callable with as many arguments. -/
theorem Callable.enriched (hc : c.Enriched c') {name : String} {given : Nat}
    (h : Callable c.dialect name given) : Callable c'.dialect name given := by
  obtain ⟨s, hs, hlabel, hmodern, hgiven⟩ := h
  exact ⟨s, hs, hlabel, fun honly => hc.functions (hmodern honly), hgiven⟩

theorem WritesTest.enriched (hc : c.Enriched c') :
    Phrase.Keeps (WritesTest c) (WritesTest c') := by
  intro w test hwrites
  cases hwrites with
  | anyName => exact .anyName
  | name hstar => exact .name hstar
  | anyNameIn huri => exact .anyNameIn (hc.bindings _ _ huri)
  | nameIn huri hstar => exact .nameIn (hc.bindings _ _ huri) hstar
  | anyNode => exact .anyNode
  | text => exact .text
  | comment => exact .comment
  | instruction => exact .instruction
  | instructionTo target => exact .instructionTo target

section Nested

variable (hc : c.Enriched c') (h : nested.Keeps nested')

include hc h

theorem WritesStep.enriched : Phrase.Keeps (WritesStep c nested) (WritesStep c' nested') := by
  intro w s hwrites
  cases hwrites with
  | self => exact .self
  | parent => exact .parent
  | full haxis htest hpredicates =>
    exact .full haxis (WritesTest.enriched hc htest) (WritesPredicates.keeps h hpredicates)

theorem WritesSteps.enriched : Phrase.Keeps (WritesSteps c nested) (WritesSteps c' nested') := by
  intro w steps hwrites
  induction hwrites with
  | one hs => exact .one (WritesStep.enriched hc h hs)
  | more hs hleads _ ih => exact .more (WritesStep.enriched hc h hs) hleads ih

theorem WritesPrimary.enriched :
    Phrase.Keeps (WritesPrimary c nested) (WritesPrimary c' nested') := by
  intro w e hwrites
  cases hwrites with
  | varRef name => exact .varRef name
  | literal body => exact .literal body
  | number digits => exact .number digits
  | parens he => exact .parens (h he)
  | call hargs hcallable => exact .call (WritesArgumentList.keeps h hargs) (hcallable.enriched hc)

theorem WritesFilter.enriched :
    Phrase.Keeps (WritesFilter c nested) (WritesFilter c' nested') := by
  intro w e hwrites
  cases hwrites with
  | bare hprimary => exact .bare (WritesPrimary.enriched hc h hprimary)
  | filter hprimary hpredicates hsome =>
    exact .filter (WritesPrimary.enriched hc h hprimary) (WritesPredicates.keeps h hpredicates) hsome

theorem WritesPath.enriched : Phrase.Keeps (WritesPath c nested) (WritesPath c' nested') := by
  intro w e hwrites
  cases hwrites with
  | root => exact .root
  | fromRoot hleads hsteps => exact .fromRoot hleads (WritesSteps.enriched hc h hsteps)
  | bare hfilter => exact .bare (WritesFilter.enriched hc h hfilter)
  | fromNodes hfilter hleads hsteps =>
    exact .fromNodes (WritesFilter.enriched hc h hfilter) hleads (WritesSteps.enriched hc h hsteps)
  | relative hsteps => exact .relative (WritesSteps.enriched hc h hsteps)

theorem WritesExpr.enriched : Phrase.Keeps (WritesExpr c nested) (WritesExpr c' nested') := by
  have hpath : Phrase.Keeps (WritesPath c nested) (WritesPath c' nested') :=
    WritesPath.enriched hc h
  have hsigned := WritesSigned.keeps (WritesJoined.keeps .union hpath)
  have hsum := WritesJoined.keeps .sum (WritesJoined.keeps .product hsigned)
  have hequality := WritesJoined.keeps .equality (WritesJoined.keeps .order hsum)
  exact WritesJoined.keeps .disjunction (WritesJoined.keeps .conjunction hequality)

end Nested

/-! ### Expressions -/

/-- What is written in a context is written in a richer one. -/
theorem Writes.enriched (hc : c.Enriched c') : ∀ depth : Nat,
    Phrase.Keeps (Writes c depth) (Writes c' depth)
  | 0 => fun _ _ h => h
  | depth + 1 => WritesExpr.enriched hc (Writes.enriched hc depth)

/-- What compiles in a context compiles to the same expression in a richer one. -/
theorem compile_enriched (hc : c.Enriched c') {source : String} {q : Query}
    (h : compile source c = .ok q) : compile source c' = .ok q := by
  obtain ⟨ts, hts, hparse, hsource⟩ := compile_eq_ok_iff.1 h
  obtain ⟨body, rfl, hne⟩ := (covers_of_tokenize hts).ends
  have hwrites := Writes.enriched hc depthLimit ((parse_eq_ok_iff hne _ _).1 hparse)
  exact compile_eq_ok_iff.2 ⟨_, hts, (parse_eq_ok_iff hne _ _).2 hwrites, hsource⟩

/-! ### Declaring labels -/

/-- A context with labels bound in addition, one after the other. -/
def Context.declareAll (c : Context) (declarations : List (String × String)) : Context :=
  declarations.foldl (fun c d => c.declare d.1 d.2) c

/-- Labels that are not among the declared ones keep their namespaces. -/
theorem Context.get?_declareAll {label : String} : ∀ {declarations : List (String × String)}
    (c : Context), (∀ d ∈ declarations, d.1 ≠ label) →
      (c.declareAll declarations).bindings.get? label = c.bindings.get? label
  | [], _, _ => rfl
  | d :: declarations, c, h => by
    obtain ⟨hd, hrest⟩ := List.forall_mem_cons.1 h
    have hstep := get?_declareAll (c.declare d.1 d.2) hrest
    rw [Context.declare, NamedList.get?_insert, if_neg hd.symm] at hstep
    exact hstep

/-- A context of the legacy dialect is enriched by another dialect and by labels that are not bound
in it. -/
theorem Context.enriched_declareAll (hlegacy : c.dialect = .legacy) (dialect : Dialect)
    {declarations : List (String × String)}
    (hfresh : ∀ d ∈ declarations, c.bindings.get? d.1 = none) :
    c.Enriched (Context.declareAll ⟨dialect, c.bindings⟩ declarations) := by
  constructor
  · intro hmodern
    rw [hlegacy] at hmodern
    cases hmodern
  · intro label uri hbound
    rw [get?_declareAll]
    · exact hbound
    · rintro d hd rfl
      rw [hfresh d hd] at hbound
      cases hbound

/-- A function that can be called in a dialect is listed for it. -/
theorem Callable.name_mem {dialect : Dialect} {name : String} {given : Nat}
    (h : Callable dialect name given) : name ∈ functionNames dialect := by
  obtain ⟨s, hs, rfl, hmodern, -⟩ := h
  exact List.mem_map_of_mem (List.mem_filter.2 ⟨hs, Signature.isIn_iff.2 hmodern⟩)

/-- What compiles in a context of the legacy dialect compiles to the same expression in either
dialect with further labels bound, and calls functions of the legacy dialect only. -/
theorem legacy_compiles_in_richer_contexts {source : String} {context : Context} {q : Query}
    (hlegacy : context.dialect = .legacy) (h : compile source context = .ok q) :
    (∀ (dialect : Dialect) (declarations : List (String × String)),
      (∀ d ∈ declarations, context.bindings.get? d.1 = none) →
        compile source (Context.declareAll ⟨dialect, context.bindings⟩ declarations) = .ok q) ∧
    ∀ f args, q.expr.Holds (.call f args) → f.label ∈ functionNames .legacy := by
  constructor
  · intro dialect declarations hfresh
    exact compile_enriched (Context.enriched_declareAll hlegacy dialect hfresh) h
  · intro f args hcall
    exact hlegacy ▸ (callable_of_compile h hcall).name_mem

/-- The number of books in a namespace that have an identifier, with one more label in the modern
dialect. -/
theorem legacy_compiles_in_richer_contexts_of_count :
    let context : Context := (Context.ofDialect .legacy).declare "x" "urn:x"
    let more : List (String × String) := [("y", "urn:y")]
    let identified : Expr := .path .context [.mk .attr (.name none "id") []]
    let books : Expr :=
      .path .root [Step.anywhere, .mk .child (.name (some "urn:x") "book") [identified]]
    let q : Query := ⟨"count(//x:book[@id])", .call ⟨"count"⟩ [books]⟩
    context.dialect = .legacy ∧ compile "count(//x:book[@id])" context = .ok q ∧
      (∀ d ∈ more, context.bindings.get? d.1 = none) ∧
      compile "count(//x:book[@id])" (Context.declareAll ⟨.modern, context.bindings⟩ more) =
        .ok q ∧
      "count" ∈ functionNames .legacy := by
  intro context more identified books q
  have htokens : tokenize "count(//x:book[@id])" = .ok [⟨.name none "count", 0⟩, ⟨.leftParen, 5⟩,
      ⟨.doubleSlash, 6⟩, ⟨.name (some "x") "book", 8⟩, ⟨.leftBracket, 14⟩, ⟨.atSign, 15⟩,
      ⟨.name none "id", 16⟩, ⟨.rightBracket, 18⟩, ⟨.rightParen, 19⟩, ⟨.eof, 20⟩] := rfl
  have hcompiled : compile "count(//x:book[@id])" context = .ok q :=
    compile_eq_ok_iff.2 ⟨_, htokens, rfl, rfl⟩
  have hfresh : ∀ d ∈ more, context.bindings.get? d.1 = none := by decide
  obtain ⟨hricher, hcalls⟩ := legacy_compiles_in_richer_contexts rfl hcompiled
  exact ⟨rfl, hcompiled, hfresh, hricher .modern more hfresh, hcalls _ _ .refl⟩

end MarkupRules.Query
