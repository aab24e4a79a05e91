/-
# Phases only restrict

A phase without variables of its own takes patterns away from a program and changes nothing in
those that it keeps: they are compiled, bound and run as they are among all patterns. So what is
listed for the phase is what is listed for all patterns, in the same order, without the entries
that belong to patterns that are not in the phase.

Key definitions: `Program.restrict`, `Report.restrict`, `PatternRun.Owned`.

Key theorems: `programOf_restrict`, `translate_restrict`, `runProgram_restrict`,
`phase_restricts`.
-/
import MarkupRules.Proofs.Schema.Agreement
import MarkupRules.Proofs.Validation.Stack

namespace MarkupRules

open Markup (Document Tree)
open Program (CheckKind Pattern Reading)
open Schema (PhaseChoice StageError parts)

/-! ### Fewer patterns -/

/-- Whether an identifier is listed; a missing one counts as the empty one. -/
def isListed (listed : List String) (id : Option String) : Bool :=
  listed.contains (id.getD "")

variable {ε : Type} (phase : String) (listed : List String)

/-- A program with only those of its patterns that have a listed identifier. -/
def Program.restrict (p : Program ε) : Program ε :=
  { p with phase, patterns := p.patterns.filter fun q => isListed listed q.id }

/-- A report on only those patterns that have a listed identifier. -/
def Validation.Report.restrict (r : Validation.Report) : Validation.Report :=
  { r with phase, patterns := r.patterns.filter fun run => isListed listed run.id }

/-- Where every item of a list has a result, so has every item that is kept. -/
theorem mapM_filter_eq_ok {κ α β : Type} {f : α → Except κ β} {keep : α → Bool} {keep' : β → Bool}
    (hkeep : ∀ x y, f x = .ok y → keep x = keep' y) {xs : List α} {ys : List β}
    (h : xs.mapM f = .ok ys) : (xs.filter keep).mapM f = .ok (ys.filter keep') := by
  exact mapM_eq_ok_iff.2 (forall₂_filter hkeep (mapM_eq_ok_iff.1 h))

/-! ### Compiling and binding -/

namespace Schema

/-- The identifiers that a phase lists. -/
def activeIds (declaration : Tree) : List String :=
  (parts declaration "active").filterMap fun a => a.attribute? "pattern"

theorem phaseName_of_phase? {t : Tree} {parameters : Parameters} {name : String}
    (h : Parameters.phase? parameters = some name) (hempty : name ≠ "")
    (hdefault : name ≠ "#DEFAULT") : phaseName t parameters = name := by
  have hasked : requestedPhase parameters = some name := by
    rw [requestedPhase, h, Option.filter_eq_some_iff]
    exact ⟨rfl, by simp [defaultPhase, hempty, hdefault]⟩
  rw [phaseName, hasked]
  rfl

/-- All patterns are the choice that is made without a phase. -/
theorem choosePhase_all {t : Tree} {parameters : Parameters}
    (h : Parameters.phase? parameters = some "#ALL") :
    choosePhase t parameters = .ok ⟨"#ALL", none⟩ := by
  have hname : phaseName t parameters = "#ALL" :=
    phaseName_of_phase? h (by decide) (by decide)
  rw [choosePhase, hname]
  exact if_pos rfl

/-- A declared phase is chosen where it is asked for. -/
theorem choosePhase_declared {t declaration : Tree} {parameters : Parameters} {name : String}
    (h : Parameters.phase? parameters = some name) (hempty : name ≠ "") (hall : name ≠ "#ALL")
    (hdefault : name ≠ "#DEFAULT")
    (hdeclared : (parts t "phase").find? (fun p => p.attribute? "id" == some name) =
      some declaration) :
    choosePhase t parameters = .ok ⟨name, some declaration⟩ := by
  have hname : name ≠ Program.allPatterns := hall
  rw [choosePhase, phaseName_of_phase? h hempty hdefault, if_neg hname, hdeclared]

theorem id_of_schemaPattern {t : Tree} {p : Pattern String} (h : schemaPattern t = .ok p) :
    p.id = t.attribute? "id" := by
  obtain ⟨definitions, -, h⟩ := bind_eq_ok_iff.1 h
  obtain ⟨rules, -, h⟩ := bind_eq_ok_iff.1 h
  cases h
  rfl

/-- The program of a phase without variables is the program of all patterns without those that
the phase leaves out. -/
theorem programOf_restrict {t declaration : Tree} {dialect : Dialect}
    {everything restricted : Parameters} {p : Program String}
    (hall : choosePhase t everything = .ok ⟨"#ALL", none⟩)
    (hphase : choosePhase t restricted = .ok ⟨phase, some declaration⟩)
    (hlets : parts declaration "let" = [])
    (h : programOf t dialect everything = .ok p) :
    programOf t dialect restricted = .ok (p.restrict phase (activeIds declaration)) := by
  rw [programOf_eq, hall, ok_bind] at h
  obtain ⟨namespaces, hnamespaces, h⟩ := bind_eq_ok_iff.1 h
  obtain ⟨definitions, hdefinitions, h⟩ := bind_eq_ok_iff.1 h
  obtain ⟨patterns, hpatterns, h⟩ := bind_eq_ok_iff.1 h
  cases h
  have hkept : (activePatterns t ⟨phase, some declaration⟩).mapM schemaPattern =
      .ok (patterns.filter fun q => isListed (activeIds declaration) q.id) := by
    have hsplit : activePatterns t ⟨phase, some declaration⟩ =
        (activePatterns t ⟨"#ALL", none⟩).filter fun q =>
          isListed (activeIds declaration) (q.attribute? "id") := by
      rw [activePatterns, activePatterns, List.filter_filter]
      refine List.filter_congr fun q _ => ?_
      rw [Bool.and_comm, PhaseChoice.includes, PhaseChoice.includes, Bool.and_true]
      rfl
    rw [hsplit]
    refine mapM_filter_eq_ok (fun q out hq => ?_) hpatterns
    rw [id_of_schemaPattern hq]
  have hlets' : PhaseChoice.lets ⟨phase, some declaration⟩ = PhaseChoice.lets ⟨"#ALL", none⟩ :=
    hlets
  rw [programOf_eq, hphase, ok_bind, hnamespaces, ok_bind, hlets', hdefinitions, ok_bind, hkept]
  rfl

end Schema

namespace Program

theorem joined_restrict (p : Program ε) :
    (p.restrict phase listed).joined = p.joined.restrict phase listed := by
  simp [restrict, joined, List.filter_map, Function.comp_def, Pattern.joined]

theorem id_of_translate {reading : Reading ε} {p : Pattern String} {q : Pattern ε}
    (h : p.translate reading = .ok q) : q.id = p.id := by
  obtain ⟨definitions, -, h⟩ := bind_eq_ok_iff.1 h
  obtain ⟨rules, -, h⟩ := bind_eq_ok_iff.1 h
  cases h
  rfl

/-- Patterns are read without a look at the others. -/
theorem translate_restrict {reading : Query.Context → Reading ε} {p : Program String}
    {q : Program ε} (h : p.translate reading = .ok q) :
    (p.restrict phase listed).translate reading = .ok (q.restrict phase listed) := by
  obtain ⟨definitions, hdefinitions, h⟩ := bind_eq_ok_iff.1 h
  obtain ⟨patterns, hpatterns, h⟩ := bind_eq_ok_iff.1 h
  cases h
  refine bind_eq_ok_iff.2 ⟨definitions, hdefinitions, bind_eq_ok_iff.2 ⟨_, ?_, rfl⟩⟩
  refine mapM_filter_eq_ok (fun x y hxy => ?_) hpatterns
  rw [id_of_translate hxy]

end Program

/-! ### Running -/

namespace Validation

open Query (Index Place Scope)

/-- Everything that a pattern found is told of it. -/
def PatternRun.Owned (run : PatternRun) : Prop :=
  ∀ f ∈ run.firings, ∀ finding ∈ f.findings, finding.pattern = run.id

theorem pattern_of_runCheck {ix : Index} {pattern : Option String} {rule : Program.Rule Query}
    {p : Place} {scope : Scope} {c : Program.Check Query} {found : List Finding}
    (h : runCheck ix pattern rule p scope c = .ok found) :
    ∀ finding ∈ found, finding.pattern = pattern := by
  obtain ⟨holds, -, h⟩ := bind_eq_ok_iff.1 h
  split at h
  · obtain ⟨message, -, h⟩ := bind_eq_ok_iff.1 h
    cases h
    intro finding hfinding
    rw [List.mem_singleton.1 hfinding]
  · cases h
    intro finding hfinding
    cases hfinding

theorem pattern_of_runRule {ix : Index} {pattern : Option String} {rule : Program.Rule Query}
    {p : Place} {scope left : Scope} {f : Firing}
    (h : runRule ix pattern p rule scope = .ok (f, left)) :
    ∀ finding ∈ f.findings, finding.pattern = pattern := by
  obtain ⟨-, inner, found, -, hfound, rfl⟩ := runRule_eq_ok_iff.1 h
  intro finding hfinding
  obtain ⟨own, hown, hfinding⟩ := List.mem_flatten.1 hfinding
  obtain ⟨c, -, hc⟩ := exists_of_forall₂ (mapM_eq_ok_iff.1 hfound) own hown
  exact pattern_of_runCheck hc finding hfinding

/-- A run bears the identifier of its pattern, and so does all that it found. -/
theorem owned_of_runPattern {ix : Index} {pattern : Pattern Query} {scope left : Scope}
    {run : PatternRun} (h : runPattern ix pattern scope = .ok (run, left)) :
    run.id = pattern.id ∧ run.Owned := by
  obtain ⟨-, inner, ms, firings, -, -, hfirings, rfl⟩ := runPattern_eq_ok_iff.1 h
  refine ⟨rfl, fun f hf => ?_⟩
  obtain ⟨m, -, hm⟩ := exists_of_forall₂ hfirings f hf
  exact pattern_of_runRule hm

/-- Without the other patterns a program runs as before, and its report is without them. -/
theorem runProgram_restrict {program : Program Query} {d : Document}
    {parameters : Option Parameters} {report : Report}
    (h : runProgram program d parameters = .ok report) :
    runProgram (program.restrict phase listed) d parameters =
      .ok (report.restrict phase listed) ∧ ∀ run ∈ report.patterns, run.Owned := by
  obtain ⟨scope, runs, hscope, hruns, rfl⟩ := runProgram_eq_ok_iff.1 h
  refine ⟨runProgram_eq_ok_iff.2 ⟨scope, _, hscope, ?_, rfl⟩, ?_⟩
  · refine forall₂_filter (fun pattern run hrun => ?_) hruns
    rw [(owned_of_runPattern hrun).1]
  · intro run hrun
    obtain ⟨pattern, -, hpattern⟩ := exists_of_forall₂ hruns run hrun
    exact (owned_of_runPattern hpattern).2

/-! ### What is listed -/

/-- What is listed for kept patterns is what is kept of what is listed, if both are told from the
pattern. -/
theorem flatMap_filter_eq {α : Type} {runs : List PatternRun} {list : PatternRun → List α}
    {pattern : α → Option String}
    (h : ∀ run ∈ runs, ∀ a ∈ list run, pattern a = run.id) :
    (runs.filter fun run => isListed listed run.id).flatMap list =
      (runs.flatMap list).filter fun a => isListed listed (pattern a) := by
  induction runs with
  | nil => rfl
  | cons run runs ih =>
    obtain ⟨hrun, hruns⟩ := List.forall_mem_cons.1 h
    have hown : (list run).filter (fun a => isListed listed (pattern a)) =
        if isListed listed run.id then list run else [] := by
      split
      · next hlisted =>
        refine List.filter_eq_self.2 fun a ha => ?_
        rwa [hrun a ha]
      · next hlisted =>
        refine List.filter_eq_nil_iff.2 fun a ha => ?_
        rwa [hrun a ha]
    rw [List.flatMap_cons, List.filter_append, ← ih hruns, hown, List.filter_cons]
    split
    · rw [List.flatMap_cons]
    · rw [List.nil_append]

theorem activePatterns_restrict (report : Report) :
    (report.restrict phase listed).activePatterns =
      report.activePatterns.filter fun id => listed.contains id := by
  rw [Report.activePatterns, Report.activePatterns, List.filter_map]
  rfl

theorem firedRules_restrict (report : Report) :
    (report.restrict phase listed).firedRules =
      report.firedRules.filter fun f => isListed listed f.pattern := by
  refine flatMap_filter_eq listed fun run _ f hf => ?_
  obtain ⟨firing, -, rfl⟩ := List.mem_map.1 hf
  rfl

theorem findingsOf_restrict {report : Report} (h : ∀ run ∈ report.patterns, run.Owned)
    (kind : CheckKind) :
    (report.restrict phase listed).findingsOf kind =
      (report.findingsOf kind).filter fun f => isListed listed f.pattern := by
  refine flatMap_filter_eq listed fun run hrun finding hfinding => ?_
  obtain ⟨f, hf, hfinding⟩ := List.mem_flatMap.1 hfinding
  exact h run hrun f hf finding (List.mem_filter.1 hfinding).1

/-- A phase without variables of its own runs wherever all patterns run, and what is listed for it
is what is listed for them, in the same order, for the patterns that the phase names. -/
theorem phase_restricts {dialect : Dialect} {schema : Document} {t declaration : Tree}
    {everything restricted : Parameters} {d : Document} {parameters : Option Parameters}
    {p : Program Query} {report : Report} {a : Document}
    (hschema : schema.tree.documentElement? = some t)
    (hempty : phase ≠ "") (hall : phase ≠ "#ALL") (hdefault : phase ≠ "#DEFAULT")
    (hdeclared : (parts t "phase").find? (fun p => p.attribute? "id" == some phase) =
      some declaration)
    (hlets : parts declaration "let" = [])
    (heverything : Parameters.phase? everything = some "#ALL")
    (hrestricted : Parameters.phase? restricted = some phase)
    (hcompile : Schema.compile dialect schema everything = .ok a)
    (hbind : Program.bind a = .ok p) (hrun : runProgram p d parameters = .ok report) :
    ∃ a' p' report', Schema.compile dialect schema restricted = .ok a' ∧
      Program.bind a' = .ok p' ∧ runProgram p' d parameters = .ok report' ∧
      let listed := Schema.activeIds declaration
      report'.activePatterns = report.activePatterns.filter (fun id => listed.contains id) ∧
      report'.firedRules = report.firedRules.filter (fun f => isListed listed f.pattern) ∧
      report'.failedAssertions =
        report.failedAssertions.filter (fun f => isListed listed f.pattern) ∧
      report'.successfulReports =
        report.successfulReports.filter (fun f => isListed listed f.pattern) := by
  obtain ⟨u, text, hu, hterm, htext, rfl⟩ := Schema.compile_eq_ok_iff.1 hcompile
  rw [hschema] at hu
  cases hu
  rw [Program.bind, Program.ofTree_ofForest] at hbind
  have htext' := Schema.programOf_restrict phase (Schema.choosePhase_all heverything)
    (Schema.choosePhase_declared hrestricted hempty hall hdefault hdeclared) hlets htext
  obtain ⟨hrun', howned⟩ :=
    runProgram_restrict phase (Schema.activeIds declaration) hrun
  refine ⟨_, _, _, Schema.compile_eq_ok_iff.2 ⟨t, _, hschema, hterm, htext', rfl⟩, ?_, hrun', ?_⟩
  · rw [Program.bind, Program.ofTree_ofForest, Program.joined_restrict]
    exact Program.translate_restrict phase _ hbind
  · exact ⟨activePatterns_restrict _ _ _, firedRules_restrict _ _ _,
      findingsOf_restrict _ _ howned _, findingsOf_restrict _ _ howned _⟩

/-- A schema with a phase for one of its patterns, which wants books to have an identifier. The other
pattern has none itself and reports books that have. -/
def loanSchema : Document :=
  Document.ofForest [Schema.schemaElement "schema" [] [
    Schema.schemaElement "phase" [("id", "lend")] [
      Schema.schemaElement "active" [("pattern", "loans")] []],
    Schema.schemaElement "pattern" [("id", "loans")] [
      Schema.schemaElement "rule" [("context", "book")] [
        Schema.schemaElement "assert" [("test", "@id")] []]],
    Schema.schemaElement "pattern" [] [
      Schema.schemaElement "rule" [("context", "book")] [
        Schema.schemaElement "report" [("test", "@id")] []]]]]

/-- The nodes that the rules of the schema are for. -/
def books : Query where
  source := "book"
  expr := .path .root [Query.Step.anywhere, .mk .child (.name none "book") []]

/-- The test of the rules of the schema. -/
def identified : Query where
  source := "@id"
  expr := .path .context [.mk .attr (.name none "id") []]

/-- The pattern of the schema that has an identifier. -/
def loanPattern : Pattern Query :=
  ⟨some "loans", none, [],
    [⟨books, ⟨none, none, none⟩, [], [⟨.assertion, identified, ⟨none, none, none⟩, []⟩]⟩]⟩

/-- The pattern of the schema that has no identifier. -/
def knownPattern : Pattern Query :=
  ⟨none, none, [],
    [⟨books, ⟨none, none, none⟩, [], [⟨.report, identified, ⟨none, none, none⟩, []⟩]⟩]⟩

theorem phase_restricts_on_shelf :
    ∃ a p report,
      Schema.compile .modern loanSchema (.ofList [("phase", .text "lend")]) = .ok a ∧
      Program.bind a = .ok p ∧ runProgram p .shelf none = .ok report ∧
      report.activePatterns = ["loans"] ∧
      report.failedAssertions.map Finding.location = ["/shelf[1]/book[2]"] ∧
      report.successfulReports = [] := by
  have hbook : Query.compile "book" (.ofDialect .modern) =
      .ok ⟨"book", .path .context [.mk .child (.name none "book") []]⟩ :=
    Query.compile_eq_ok_iff.2 ⟨[⟨.name none "book", 0⟩, ⟨.eof, 4⟩], rfl, rfl, rfl⟩
  have hcontext : Query.compilePattern "book" (.ofDialect .modern) = .ok books := by
    rw [Query.compilePattern, hbook]
    rfl
  have htest : Query.compile "@id" (.ofDialect .modern) = .ok identified :=
    Query.compile_eq_ok_iff.2 ⟨[⟨.atSign, 0⟩, ⟨.name none "id", 1⟩, ⟨.eof, 3⟩], rfl, rfl, rfl⟩
  let text : Program String := ⟨.modern, "#ALL", none, [], [],
    [⟨some "loans", none, [],
      [⟨"book", ⟨none, none, none⟩, [], [⟨.assertion, "@id", ⟨none, none, none⟩, []⟩]⟩]⟩,
    ⟨none, none, [],
      [⟨"book", ⟨none, none, none⟩, [], [⟨.report, "@id", ⟨none, none, none⟩, []⟩]⟩]⟩]⟩
  let program : Program Query := ⟨.modern, "#ALL", none, [], [], [loanPattern, knownPattern]⟩
  have hcompile : Schema.compile .modern loanSchema (.ofList [("phase", .text "#ALL")]) =
      .ok (Document.ofForest [text.toTree]) := rfl
  have hbind : Program.bind (Document.ofForest [text.toTree]) = .ok program := by
    rw [Program.bind, Program.ofTree_ofForest]
    simp [text, program, loanPattern, knownPattern, Program.translate, Program.joined,
      Pattern.joined, Program.Rule.joined, Program.Check.joined, Program.MessagePart.joined,
      Pattern.translate, Program.Rule.translate, Program.Check.translate, Program.compiled,
      Program.readAs, Program.contextOf, ok_bind, hcontext, htest, pure, Except.pure]
  obtain ⟨run₁, found₁, hrun₁, hlabel₁, hfailed₁, hpattern₁, hlocation₁, hreports₁⟩ :
      ∃ run found, runPattern (.ofDocument .shelf) loanPattern .empty = .ok (run, .empty) ∧
        run.label = "loans" ∧ run.findingsOf .assertion = [found] ∧
        found.pattern = some "loans" ∧ found.location = "/shelf[1]/book[2]" ∧
        run.findingsOf .report = [] :=
    ⟨_, _, runPattern_of_firings rfl rfl (by decide) (.cons rfl (.cons rfl .nil)), rfl, rfl, rfl,
      rfl, rfl⟩
  obtain ⟨run₂, found₂, hrun₂, hlabel₂, hfailed₂, hreports₂, hpattern₂⟩ :
      ∃ run found, runPattern (.ofDocument .shelf) knownPattern .empty = .ok (run, .empty) ∧
        run.label = "" ∧ run.findingsOf .assertion = [] ∧
        run.findingsOf .report = [found] ∧ found.pattern = none :=
    ⟨_, _, runPattern_of_firings rfl rfl (by decide) (.cons rfl (.cons rfl .nil)), rfl, rfl, rfl,
      rfl⟩
  have hrun : runProgram program .shelf none = .ok (reportOf program .shelf [run₁, run₂]) :=
    runProgram_eq_ok_iff.2 ⟨.empty, _, rfl, .cons hrun₁ (.cons hrun₂ .nil), rfl⟩
  let declaration : Tree := Schema.schemaElement "phase" [("id", "lend")] [
    Schema.schemaElement "active" [("pattern", "loans")] []]
  have hlisted : Schema.activeIds declaration = ["loans"] := rfl
  have hlets : parts declaration "let" = [] := rfl
  have hphase : Parameters.phase? (.ofList [("phase", .text "lend")]) = some "lend" := rfl
  obtain ⟨a, p, report, ha, hp, hreport, hactive, -, hfailed, hreports⟩ :=
    phase_restricts "lend" rfl (by decide) (by decide) (by decide) rfl hlets rfl hphase hcompile
      hbind hrun
  rw [hlisted] at hactive hfailed hreports
  refine ⟨a, p, report, ha, hp, hreport, ?_, ?_, ?_⟩
  · rw [hactive]
    simp [reportOf, Report.activePatterns, hlabel₁, hlabel₂]
  · rw [hfailed]
    simp [reportOf, Report.failedAssertions, Report.findingsOf, isListed, hfailed₁, hfailed₂,
      hpattern₁, hlocation₁]
  · rw [hreports]
    simp [reportOf, Report.successfulReports, Report.findingsOf, isListed, hreports₁, hreports₂,
      hpattern₂]

end Validation

end MarkupRules
