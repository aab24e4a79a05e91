/-
# The stack of variables

Patterns and rules share one stack of variables, and each puts its own on top and takes them off
again. So a rule that fires leaves the stack as it found it, and so does a pattern, whatever names
are bound again on the way. Nothing passes from one pattern to the next, or from one node to the
next: a program finds what its patterns find one by one, and what a rule finds at a node is told
by the parameters, the variables in sight, the rule and the node.

Key definitions: `OnStack.Restores`, `patternScope`, `findingsAlone`.

Key theorems: `runRule_eq_ok_iff`, `runPattern_eq_ok_iff`, `onStackAll_eq_ok_iff`,
`onStackAll_eq_error_iff`, `runProgram_eq_ok_iff`, `patterns_do_not_interfere`.
-/
import MarkupRules.Proofs.Markup.Built
import MarkupRules.Proofs.Steps
import MarkupRules.Validation.Run

namespace MarkupRules.Validation

open Markup (Document)
open Markup.Document (root)
open Program (Check CheckKind Definition Pattern Rule)
open Query (Index Place Scope)

/-! ### What is put on the stack is taken off again -/

/-- What works on the stack and leaves it as it was. -/
def OnStack.Restores {α : Type} (run : OnStack α) : Prop :=
  ∀ scope a left, run scope = .ok (a, left) → left = scope

variable {ix : Index} {p : Place}

/-- Definitions are put on top of the stack. -/
theorem defineAll_bindings : ∀ {ds : List (Definition Query)} {scope inner : Scope},
    defineAll ix p ds scope = .ok inner → ∃ made, inner.bindings = made ++ scope.bindings
  | [], scope, inner, h => by
    cases h
    exact ⟨[], rfl⟩
  | d :: rest, scope, inner, h => by
    unfold defineAll at h
    obtain ⟨v, -, h⟩ := bind_eq_ok_iff.1 h
    obtain ⟨made, hmade⟩ := defineAll_bindings h
    refine ⟨made ++ [(d.name, v)], ?_⟩
    rw [hmade, Scope.push, List.append_assoc, List.singleton_append]

/-- After definitions the mark set in front of them leads back. -/
theorem truncate_defineAll {ds : List (Definition Query)} {scope inner : Scope}
    (h : defineAll ix p ds scope = .ok inner) : inner.truncate scope.size = scope := by
  obtain ⟨made, hmade⟩ := defineAll_bindings h
  rw [Scope.truncate, Scope.size, Scope.size, hmade, List.length_append, Nat.add_sub_cancel,
    List.drop_left]

theorem runRule_eq_ok_iff {pattern : Option String} {rule : Rule Query} {scope left : Scope}
    {f : Firing} :
    runRule ix pattern p rule scope = .ok (f, left) ↔
      left = scope ∧ ∃ inner found, defineAll ix p rule.definitions scope = .ok inner ∧
        rule.checks.mapM (runCheck ix pattern rule p inner) = .ok found ∧
        f = ⟨rule.context.source, rule.notes, p, found.flatten⟩ := by
  rw [runRule]
  constructor
  · intro h
    obtain ⟨inner, hinner, h⟩ := bind_eq_ok_iff.1 h
    obtain ⟨found, hfound, h⟩ := bind_eq_ok_iff.1 h
    cases h
    exact ⟨truncate_defineAll hinner, inner, found, hinner, hfound, rfl⟩
  · rintro ⟨rfl, inner, found, hinner, hfound, rfl⟩
    refine bind_eq_ok_iff.2 ⟨inner, hinner, bind_eq_ok_iff.2 ⟨found, hfound, ?_⟩⟩
    rw [truncate_defineAll hinner]

theorem restores_runRule (pattern : Option String) (rule : Rule Query) :
    (runRule ix pattern p rule).Restores :=
  fun _ _ _ h => (runRule_eq_ok_iff.1 h).1

section OnStack

variable {α β : Type} {step : α → OnStack β} (hstep : ∀ x, (step x).Restores)

include hstep

/-- Where every step restores the stack, all steps find the stack that the first one finds. -/
theorem onStackAll_eq_ok_iff : ∀ {xs : List α} {ys : List β} {scope left : Scope},
    onStackAll step xs scope = .ok (ys, left) ↔
      left = scope ∧ List.Forall₂ (fun x y => step x scope = .ok (y, scope)) xs ys
  | [], ys, scope, left => by
    rw [onStackAll, List.forall₂_nil_left_iff, Except.ok.injEq, Prod.mk.injEq, eq_comm,
      eq_comm (a := scope), and_comm]
  | x :: xs, ys, scope, left => by
    rw [onStackAll, bind_eq_ok_iff]
    constructor
    · rintro ⟨⟨y, scope₁⟩, hy, h⟩
      obtain rfl := hstep x _ _ _ hy
      obtain ⟨⟨rest, scope₂⟩, hrest, hlast⟩ := bind_eq_ok_iff.1 h
      obtain ⟨rfl, hall⟩ := onStackAll_eq_ok_iff.1 hrest
      cases hlast
      exact ⟨rfl, .cons hy hall⟩
    · rintro ⟨rfl, hall⟩
      cases hall with
      | cons hy hrest =>
        refine ⟨_, hy, bind_eq_ok_iff.2 ⟨_, onStackAll_eq_ok_iff.2 ⟨rfl, hrest⟩, rfl⟩⟩

/-- Where every step restores the stack, the error is that of the first step that fails on the
stack that the first one finds. -/
theorem onStackAll_eq_error_iff {e : ValidationError} : ∀ {xs : List α} {scope : Scope},
    onStackAll step xs scope = .error e ↔
      ∃ before x after, xs = before ++ x :: after ∧
        (∀ y ∈ before, ∃ b, step y scope = .ok (b, scope)) ∧ step x scope = .error e
  | [], scope => by simp [onStackAll]
  | x :: xs, scope => by
    rw [onStackAll, bind_eq_error_iff]
    constructor
    · rintro (hx | ⟨⟨y, scope₁⟩, hy, h⟩)
      · exact ⟨[], x, xs, rfl, by simp, hx⟩
      · obtain rfl := hstep x _ _ _ hy
        rcases bind_eq_error_iff.1 h with h | ⟨⟨rest, scope₂⟩, -, h⟩
        · obtain ⟨before, z, after, rfl, hbefore, hz⟩ := onStackAll_eq_error_iff.1 h
          refine ⟨x :: before, z, after, rfl, ?_, hz⟩
          exact List.forall_mem_cons.2 ⟨⟨y, hy⟩, hbefore⟩
        · cases h
    · rintro ⟨before, z, after, hxs, hbefore, hz⟩
      cases before with
      | nil =>
        obtain ⟨rfl, rfl⟩ := List.cons.inj hxs
        exact .inl hz
      | cons w before =>
        obtain ⟨rfl, rfl⟩ := List.cons.inj hxs
        obtain ⟨⟨y, hy⟩, hbefore⟩ := List.forall_mem_cons.1 hbefore
        refine .inr ⟨_, hy, bind_eq_error_iff.2 (.inl ?_)⟩
        exact onStackAll_eq_error_iff.2 ⟨before, z, after, rfl, hbefore, hz⟩

end OnStack

/-- A pattern defines its variables, and then its rules fire one by one, each with these variables
and no others. -/
theorem runPattern_eq_ok_iff {pattern : Pattern Query} {scope left : Scope} {run : PatternRun} :
    runPattern ix pattern scope = .ok (run, left) ↔
      left = scope ∧ ∃ inner ms firings,
        defineAll ix (.node root) pattern.definitions scope = .ok inner ∧
        matchesOf ix inner pattern.rules = .ok ms ∧
        List.Forall₂ (fun m f => runRule ix pattern.id m.1 m.2 inner = .ok (f, inner))
          (firstMatches ix ms) firings ∧
        run = ⟨pattern.id, pattern.title, firings⟩ := by
  have hrules : ∀ m : Place × Rule Query, (runRule ix pattern.id m.1 m.2).Restores := fun m =>
    restores_runRule pattern.id m.2
  rw [runPattern]
  constructor
  · intro h
    obtain ⟨inner, hinner, h⟩ := bind_eq_ok_iff.1 h
    obtain ⟨ms, hms, h⟩ := bind_eq_ok_iff.1 h
    obtain ⟨⟨firings, scope₁⟩, hfirings, hlast⟩ := bind_eq_ok_iff.1 h
    obtain ⟨rfl, hall⟩ := (onStackAll_eq_ok_iff hrules).1 hfirings
    cases hlast
    exact ⟨truncate_defineAll hinner, _, ms, firings, hinner, hms, hall, rfl⟩
  · rintro ⟨rfl, inner, ms, firings, hinner, hms, hall, rfl⟩
    refine bind_eq_ok_iff.2 ⟨inner, hinner, bind_eq_ok_iff.2 ⟨ms, hms, bind_eq_ok_iff.2
      ⟨(firings, inner), (onStackAll_eq_ok_iff hrules).2 ⟨rfl, hall⟩, ?_⟩⟩⟩
    dsimp only
    rw [truncate_defineAll hinner]

/-- The run of a pattern whose matches are in order already. -/
theorem runPattern_of_firings {pattern : Pattern Query} {scope inner : Scope}
    {ms : List (Place × Rule Query)} {firings : List Firing}
    (hinner : defineAll ix (.node root) pattern.definitions scope = .ok inner)
    (hms : matchesOf ix inner pattern.rules = .ok ms)
    (hordered : ms.Pairwise fun a b => ix.notAfter a.1 b.1)
    (hfirings : List.Forall₂ (fun m f => runRule ix pattern.id m.1 m.2 inner = .ok (f, inner))
      (keepFirst none ms) firings) :
    runPattern ix pattern scope = .ok (⟨pattern.id, pattern.title, firings⟩, scope) := by
  refine runPattern_eq_ok_iff.2 ⟨rfl, inner, ms, firings, hinner, hms, ?_, rfl⟩
  have hsorted : firstMatches ix ms = keepFirst none ms := by
    rw [firstMatches]
    exact congrArg (keepFirst none) (List.mergeSort_of_pairwise hordered)
  rwa [hsorted]

theorem restores_runPattern (pattern : Pattern Query) : (runPattern ix pattern).Restores :=
  fun _ _ _ h => (runPattern_eq_ok_iff.1 h).1

/-! ### Programs -/

section Program

variable {program : Program Query} {d : Document} {parameters : Option Parameters}

/-- The report on a document with the given patterns. -/
def reportOf (program : Program Query) (d : Document) (runs : List PatternRun) : Report :=
  ⟨d, program.phase, program.title, program.context.bindings.entries, runs⟩

/-- A program defines its variables, and then its patterns run one by one, each with these
variables and no others. -/
theorem runProgram_eq_ok_iff {report : Report} :
    runProgram program d parameters = .ok report ↔ ∃ scope runs,
      defineAll (.ofDocument d) (.node root) program.definitions (parameterScope parameters) =
        .ok scope ∧
      List.Forall₂ (fun pattern run =>
        runPattern (.ofDocument d) pattern scope = .ok (run, scope)) program.patterns runs ∧
      report = reportOf program d runs := by
  rw [runProgram, bind_eq_ok_iff]
  constructor
  · rintro ⟨scope, hscope, h⟩
    obtain ⟨⟨runs, scope₁⟩, hruns, hlast⟩ := bind_eq_ok_iff.1 h
    obtain ⟨rfl, hall⟩ := (onStackAll_eq_ok_iff restores_runPattern).1 hruns
    cases hlast
    exact ⟨_, runs, hscope, hall, rfl⟩
  · rintro ⟨scope, runs, hscope, hall, rfl⟩
    exact ⟨scope, hscope, bind_eq_ok_iff.2
      ⟨(runs, scope), (onStackAll_eq_ok_iff restores_runPattern).2 ⟨rfl, hall⟩, rfl⟩⟩

theorem runProgram_eq_error_iff {e : ValidationError} :
    runProgram program d parameters = .error e ↔
      defineAll (.ofDocument d) (.node root) program.definitions (parameterScope parameters) =
        .error e ∨
      ∃ scope before pattern after,
        defineAll (.ofDocument d) (.node root) program.definitions (parameterScope parameters) =
          .ok scope ∧
        program.patterns = before ++ pattern :: after ∧
        (∀ q ∈ before, ∃ run, runPattern (.ofDocument d) q scope = .ok (run, scope)) ∧
        runPattern (.ofDocument d) pattern scope = .error e := by
  rw [runProgram, bind_eq_error_iff]
  refine or_congr Iff.rfl ⟨?_, ?_⟩
  · rintro ⟨scope, hscope, h⟩
    rcases bind_eq_error_iff.1 h with h | ⟨⟨runs, scope₁⟩, -, h⟩
    · obtain ⟨before, pattern, after, hpatterns, hbefore, hpattern⟩ :=
        (onStackAll_eq_error_iff restores_runPattern).1 h
      exact ⟨scope, before, pattern, after, hscope, hpatterns, hbefore, hpattern⟩
    · cases h
  · rintro ⟨scope, before, pattern, after, hscope, hpatterns, hbefore, hpattern⟩
    refine ⟨scope, hscope, bind_eq_error_iff.2 (.inl ?_)⟩
    exact (onStackAll_eq_error_iff restores_runPattern).2
      ⟨before, pattern, after, hpatterns, hbefore, hpattern⟩

/-- A program with one pattern instead of its own. -/
def withOnly (program : Program Query) (pattern : Pattern Query) : Program Query :=
  { program with patterns := [pattern] }

theorem runProgram_withOnly_eq_ok_iff {pattern : Pattern Query} {report : Report} :
    runProgram (withOnly program pattern) d parameters = .ok report ↔ ∃ scope run,
      defineAll (.ofDocument d) (.node root) program.definitions (parameterScope parameters) =
        .ok scope ∧
      runPattern (.ofDocument d) pattern scope = .ok (run, scope) ∧
      report = reportOf program d [run] := by
  rw [runProgram_eq_ok_iff]
  constructor
  · rintro ⟨scope, runs, hscope, hall, rfl⟩
    obtain ⟨run, rest, hrun, hrest, rfl⟩ := List.forall₂_cons_left_iff.1 hall
    obtain rfl := List.forall₂_nil_left_iff.1 hrest
    exact ⟨scope, run, hscope, hrun, rfl⟩
  · rintro ⟨scope, run, hscope, hrun, rfl⟩
    exact ⟨scope, [run], hscope, .cons hrun .nil, rfl⟩

theorem runProgram_withOnly_eq_error_iff {pattern : Pattern Query} {e : ValidationError} :
    runProgram (withOnly program pattern) d parameters = .error e ↔
      defineAll (.ofDocument d) (.node root) program.definitions (parameterScope parameters) =
        .error e ∨
      ∃ scope,
        defineAll (.ofDocument d) (.node root) program.definitions (parameterScope parameters) =
          .ok scope ∧
        runPattern (.ofDocument d) pattern scope = .error e := by
  rw [runProgram_eq_error_iff]
  refine or_congr Iff.rfl (exists_congr fun scope => ⟨?_, ?_⟩)
  · rintro ⟨before, q, after, hscope, hpatterns, -, hq⟩
    have hsingle : [pattern] = before ++ q :: after := hpatterns
    cases before with
    | nil =>
      obtain ⟨rfl, -⟩ := List.cons.inj hsingle
      exact ⟨hscope, hq⟩
    | cons b before => simp at hsingle
  · rintro ⟨hscope, hpattern⟩
    exact ⟨[], pattern, [], hscope, rfl, by simp, hpattern⟩

/-- The report on one pattern whose matches are in order already. -/
theorem runProgram_withOnly_of_firings {pattern : Pattern Query} {scope inner : Scope}
    {ms : List (Place × Rule Query)} {firings : List Firing}
    (hscope : defineAll (.ofDocument d) (.node root) program.definitions
      (parameterScope parameters) = .ok scope)
    (hinner : defineAll (.ofDocument d) (.node root) pattern.definitions scope = .ok inner)
    (hms : matchesOf (.ofDocument d) inner pattern.rules = .ok ms)
    (hordered : ms.Pairwise fun a b => (Index.ofDocument d).notAfter a.1 b.1)
    (hfirings : List.Forall₂
      (fun m f => runRule (.ofDocument d) pattern.id m.1 m.2 inner = .ok (f, inner))
      (keepFirst none ms) firings) :
    runProgram (withOnly program pattern) d parameters =
      .ok (reportOf program d [⟨pattern.id, pattern.title, firings⟩]) :=
  runProgram_withOnly_eq_ok_iff.2
    ⟨scope, _, hscope, runPattern_of_firings hinner hms hordered hfirings, rfl⟩

/-- Reports on one pattern each, and the reports on all of them, agree on what is listed. -/
theorem exists_runs_of_reports {scope : Scope}
    (hscope : defineAll (.ofDocument d) (.node root) program.definitions
      (parameterScope parameters) = .ok scope) :
    ∀ {patterns : List (Pattern Query)} {reports : List Report},
      List.Forall₂ (fun pattern report =>
        runProgram (withOnly program pattern) d parameters = .ok report) patterns reports →
      ∃ runs, List.Forall₂ (fun pattern run =>
          runPattern (.ofDocument d) pattern scope = .ok (run, scope)) patterns runs ∧
        reports = runs.map fun run => reportOf program d [run]
  | [], _, .nil => ⟨[], .nil, rfl⟩
  | pattern :: patterns, report :: reports, .cons hreport hreports => by
    obtain ⟨runs, hruns, rfl⟩ := exists_runs_of_reports hscope hreports
    obtain ⟨scope₁, run, hscope₁, hrun, rfl⟩ := runProgram_withOnly_eq_ok_iff.1 hreport
    rw [hscope] at hscope₁
    cases hscope₁
    exact ⟨run :: runs, .cons hrun hruns, rfl⟩

/-! ### What depends on what -/

/-- The variables in sight of the rules of a pattern: parameters, and what the program and the
pattern define. -/
def patternScope (ix : Index) (parameters : Option Parameters)
    (globals locals : List (Definition Query)) : Except ValidationError Scope := do
  let scope ← defineAll ix (.node root) globals (parameterScope parameters)
  defineAll ix (.node root) locals scope

/-- What a rule finds at a node when it is the only one to fire. -/
def findingsAlone (ix : Index) (parameters : Option Parameters)
    (globals locals : List (Definition Query)) (pattern : Option String) (rule : Rule Query)
    (p : Place) : Except ValidationError (List Finding) := do
  let scope ← patternScope ix parameters globals locals
  let scope ← defineAll ix p rule.definitions scope
  let found ← rule.checks.mapM (runCheck ix pattern rule p scope)
  .ok found.flatten

/-- Every rule that fires finds what it finds when it is the only one to fire. -/
theorem findings_alone {pattern : Pattern Query} {scope left : Scope} {run : PatternRun}
    (hscope : defineAll ix (.node root) program.definitions (parameterScope parameters) =
      .ok scope)
    (hrun : runPattern ix pattern scope = .ok (run, left)) :
    ∃ inner ms, patternScope ix parameters program.definitions pattern.definitions = .ok inner ∧
      matchesOf ix inner pattern.rules = .ok ms ∧
      List.Forall₂ (fun m f => f.place = m.1 ∧
        findingsAlone ix parameters program.definitions pattern.definitions pattern.id m.2 m.1 =
          .ok f.findings) (firstMatches ix ms) run.firings := by
  obtain ⟨-, inner, ms, firings, hinner, hms, hall, rfl⟩ := runPattern_eq_ok_iff.1 hrun
  have hpattern : patternScope ix parameters program.definitions pattern.definitions =
      .ok inner := bind_eq_ok_iff.2 ⟨scope, hscope, hinner⟩
  refine ⟨inner, ms, hpattern, hms, hall.imp fun m f hf => ?_⟩
  obtain ⟨-, there, found, hthere, hfound, rfl⟩ := runRule_eq_ok_iff.1 hf
  refine ⟨rfl, bind_eq_ok_iff.2 ⟨inner, hpattern, bind_eq_ok_iff.2 ⟨there, hthere, ?_⟩⟩⟩
  exact bind_eq_ok_iff.2 ⟨found, hfound, rfl⟩

/-- A program with patterns fails as the first of its patterns that fails alone. -/
theorem runProgram_error_iff_alone (hpatterns : program.patterns ≠ []) {e : ValidationError} :
    runProgram program d parameters = .error e ↔
      ∃ before pattern after, program.patterns = before ++ pattern :: after ∧
        (∀ q ∈ before, ∃ report, runProgram (withOnly program q) d parameters = .ok report) ∧
        runProgram (withOnly program pattern) d parameters = .error e := by
  constructor
  · intro herror
    rcases runProgram_eq_error_iff.1 herror with hglobals | hfirst
    · obtain ⟨pattern, after, hcons⟩ := List.exists_cons_of_ne_nil hpatterns
      exact ⟨[], pattern, after, hcons, by simp,
        runProgram_withOnly_eq_error_iff.2 (.inl hglobals)⟩
    · obtain ⟨scope, before, pattern, after, hscope, hsplit, hbefore, hpattern⟩ := hfirst
      refine ⟨before, pattern, after, hsplit, fun q hq => ?_,
        runProgram_withOnly_eq_error_iff.2 (.inr ⟨scope, hscope, hpattern⟩)⟩
      obtain ⟨run, hrun⟩ := hbefore q hq
      exact ⟨_, runProgram_withOnly_eq_ok_iff.2 ⟨scope, run, hscope, hrun, rfl⟩⟩
  · rintro ⟨before, pattern, after, hsplit, hbefore, hpattern⟩
    rcases runProgram_withOnly_eq_error_iff.1 hpattern with hglobals | ⟨scope, hscope, hpattern⟩
    · exact runProgram_eq_error_iff.2 (.inl hglobals)
    · refine runProgram_eq_error_iff.2
        (.inr ⟨scope, before, pattern, after, hscope, hsplit, fun q hq => ?_, hpattern⟩)
      obtain ⟨report, hreport⟩ := hbefore q hq
      obtain ⟨scope₁, run, hscope₁, hrun, -⟩ := runProgram_withOnly_eq_ok_iff.1 hreport
      rw [hscope] at hscope₁
      cases hscope₁
      exact ⟨run, hrun⟩

/-- A program with patterns of which none fails alone runs them as they run alone. -/
theorem runProgram_ok_of_alone (hpatterns : program.patterns ≠ []) {reports : List Report}
    (hreports : List.Forall₂ (fun pattern report =>
      runProgram (withOnly program pattern) d parameters = .ok report) program.patterns reports) :
    ∃ runs, runProgram program d parameters = .ok (reportOf program d runs) ∧
      reports = runs.map fun run => reportOf program d [run] := by
  obtain ⟨pattern, after, hcons⟩ := List.exists_cons_of_ne_nil hpatterns
  have hfirst := hreports
  rw [hcons] at hfirst
  obtain ⟨report, -, hreport, -, -⟩ := List.forall₂_cons_left_iff.1 hfirst
  obtain ⟨scope, -, hscope, -, -⟩ := runProgram_withOnly_eq_ok_iff.1 hreport
  obtain ⟨runs, hruns, hmap⟩ := exists_runs_of_reports hscope hreports
  exact ⟨runs, runProgram_eq_ok_iff.2 ⟨scope, runs, hscope, hruns, rfl⟩, hmap⟩

/-- What is listed for patterns is listed for them one by one. -/
theorem lists_eq_flatMap (program : Program Query) (d : Document) (runs : List PatternRun) :
    (reportOf program d runs).activePatterns =
        (runs.map fun run => reportOf program d [run]).flatMap Report.activePatterns ∧
      (reportOf program d runs).firedRules =
        (runs.map fun run => reportOf program d [run]).flatMap Report.firedRules ∧
      ∀ kind, (reportOf program d runs).findingsOf kind =
        (runs.map fun run => reportOf program d [run]).flatMap fun r => r.findingsOf kind := by
  refine ⟨?_, ?_, fun kind => ?_⟩
  · rw [List.flatMap_map]
    exact List.map_eq_flatMap
  · simp [reportOf, Report.firedRules, List.flatMap_map]
  · simp [reportOf, Report.findingsOf, List.flatMap_map]

/-- A program with patterns fails exactly if one of the patterns fails alone, with the error of
the first that does. If none does, it lists what they list alone, pattern by pattern. And in every
pattern, what is found at a node is found when the rule fires there alone. -/
theorem patterns_do_not_interfere (program : Program Query) (d : Document)
    (parameters : Option Parameters) (hpatterns : program.patterns ≠ []) :
    (∀ e, runProgram program d parameters = .error e ↔
      ∃ before pattern after, program.patterns = before ++ pattern :: after ∧
        (∀ q ∈ before, ∃ report, runProgram (withOnly program q) d parameters = .ok report) ∧
        runProgram (withOnly program pattern) d parameters = .error e) ∧
    (∀ reports, List.Forall₂ (fun pattern report =>
        runProgram (withOnly program pattern) d parameters = .ok report) program.patterns reports →
      ∃ report, runProgram program d parameters = .ok report ∧
        report.activePatterns = reports.flatMap Report.activePatterns ∧
        report.firedRules = reports.flatMap Report.firedRules ∧
        report.failedAssertions = reports.flatMap Report.failedAssertions ∧
        report.successfulReports = reports.flatMap Report.successfulReports) ∧
    ∀ report, runProgram program d parameters = .ok report →
      List.Forall₂ (fun pattern run => ∃ scope ms,
        patternScope (.ofDocument d) parameters program.definitions pattern.definitions =
          .ok scope ∧
        matchesOf (.ofDocument d) scope pattern.rules = .ok ms ∧
        List.Forall₂ (fun m f => f.place = m.1 ∧
          findingsAlone (.ofDocument d) parameters program.definitions pattern.definitions
            pattern.id m.2 m.1 = .ok f.findings) (firstMatches (.ofDocument d) ms) run.firings)
        program.patterns report.patterns := by
  refine ⟨fun e => runProgram_error_iff_alone hpatterns, fun reports hreports => ?_,
    fun report hreport => ?_⟩
  · obtain ⟨runs, hruns, rfl⟩ := runProgram_ok_of_alone hpatterns hreports
    obtain ⟨hactive, hfired, hfindings⟩ := lists_eq_flatMap program d runs
    exact ⟨_, hruns, hactive, hfired, hfindings .assertion, hfindings .report⟩
  · obtain ⟨scope, runs, hscope, hruns, rfl⟩ := runProgram_eq_ok_iff.1 hreport
    exact hruns.imp fun pattern run hrun => findings_alone hscope hrun

end Program

/-! ### A program for the shelf -/

/-- The books, and the identifiers that they have. -/
def booksAndIdentifiers : Query where
  source := "//book | //@id"
  expr := .union (.path .root [.anywhere, .mk .child (.name none "book") []])
    (.path .root [.anywhere, .mk .attr (.name none "id") []])

/-- The books that have an identifier. -/
def identifiedBooks : Query where
  source := "//book[@id]"
  expr := .path .root [.anywhere,
    .mk .child (.name none "book") [.path .context [.mk .attr (.name none "id") []]]]

/-- A pattern whose rules overlap. It hides a variable of the program behind another value. -/
def overlappingPattern : Pattern Query where
  id := some "overlapping"
  title := none
  definitions := [⟨"open", ⟨"false()", .call ⟨"false"⟩ []⟩⟩]
  rules := [
    { context := identifiedBooks
      notes := ⟨some "identified", none, none⟩
      definitions := [⟨"kept", ⟨"$open", .varRef "open"⟩⟩]
      checks := [⟨.assertion, ⟨"$kept", .varRef "kept"⟩, ⟨none, none, none⟩, [.text "kept"]⟩] },
    { context := booksAndIdentifiers
      notes := ⟨some "any", none, none⟩
      definitions := []
      checks := [⟨.report, ⟨"not($open)", .call ⟨"not"⟩ [.varRef "open"]⟩, ⟨none, none, none⟩,
        [.text "closed"]⟩] }]

/-- A pattern that needs the variable of the program. -/
def plainPattern : Pattern Query where
  id := some "plain"
  title := none
  definitions := []
  rules := [
    { context := booksAndIdentifiers
      notes := ⟨none, none, none⟩
      definitions := []
      checks := [⟨.assertion, ⟨"$open", .varRef "open"⟩, ⟨none, none, none⟩,
        [.text "open"]⟩] }]

/-- A program with both patterns. -/
def shelfProgram : Program Query where
  dialect := .modern
  phase := "#ALL"
  title := none
  namespaces := []
  definitions := [⟨"open", ⟨"true()", .call ⟨"true"⟩ []⟩⟩]
  patterns := [overlappingPattern, plainPattern]

/-- On the shelf the second pattern finds nothing wrong, although the first one hides the variable
that it needs. -/
theorem patterns_do_not_interfere_on_shelf :
    shelfProgram.patterns ≠ [] ∧ ∃ report, runProgram shelfProgram .shelf none = .ok report ∧
      report.failedAssertions.map Finding.location = ["/shelf[1]/book[1]"] ∧
      report.successfulReports.map Finding.location =
        ["/shelf[1]/book[1]/@id", "/shelf[1]/book[2]"] := by
  have hpatterns : shelfProgram.patterns ≠ [] := by simp [shelfProgram]
  obtain ⟨r₁, hr₁, hfailed₁, hreports₁⟩ : ∃ r,
      runProgram (withOnly shelfProgram overlappingPattern) .shelf none = .ok r ∧
        r.failedAssertions.map Finding.location = ["/shelf[1]/book[1]"] ∧
        r.successfulReports.map Finding.location =
          ["/shelf[1]/book[1]/@id", "/shelf[1]/book[2]"] :=
    ⟨_, runProgram_withOnly_of_firings rfl rfl rfl (by decide)
      (.cons rfl (.cons rfl (.cons rfl .nil))), rfl, rfl⟩
  obtain ⟨r₂, hr₂, hfailed₂, hreports₂⟩ : ∃ r,
      runProgram (withOnly shelfProgram plainPattern) .shelf none = .ok r ∧
        r.failedAssertions = [] ∧ r.successfulReports = [] :=
    ⟨_, runProgram_withOnly_of_firings rfl rfl rfl (by decide)
      (.cons rfl (.cons rfl (.cons rfl .nil))), rfl, rfl⟩
  obtain ⟨report, hreport, -, -, hfailed, hreports⟩ :=
    (patterns_do_not_interfere shelfProgram .shelf none hpatterns).2.1 [r₁, r₂]
      (.cons hr₁ (.cons hr₂ .nil))
  refine ⟨hpatterns, report, hreport, ?_, ?_⟩
  · rw [hfailed]
    simp [hfailed₁, hfailed₂]
  · rw [hreports]
    simp [hreports₁, hreports₂]

end MarkupRules.Validation
