/-
# Recordings and reports

A program that records what happens runs as one that gathers it: it fails where the other fails,
and otherwise its recording is that of the report, with the same lists and with the document of the
report, node for node. Every step of a recording puts trees behind those that the document has and
names behind those that the lists have, and such additions can be put together.

Key definitions: `Recording.extend`, `Report.recording`.

Key theorems: `appendTerm_eq`, `Recording.extend_extend`, `recordRule_eq`, `recordAll_eq`,
`recordPattern_eq`, `recordProgram_eq`.
-/
import MarkupRules.Proofs.Markup.Planted
import MarkupRules.Proofs.Steps
import MarkupRules.Validation.Recording

namespace MarkupRules.Markup

namespace Document

/-- An attribute of a new name goes to the end. -/
theorem setIn_of_new {name : Name} {value : String} {attributes : List Attribute}
    (h : ∀ a ∈ attributes, a.name.same name = false) :
    setIn name value attributes = attributes ++ [⟨name, value⟩] := by
  induction attributes with
  | nil => rfl
  | cons a rest ih =>
    obtain ⟨ha, hrest⟩ := List.forall_mem_cons.1 h
    rw [setIn, ha, ih hrest]
    rfl

/-- A new node may be changed before it is added. -/
theorem modifyPayload_push (d : Document) (p : NodeId) (x : Payload)
    (f : Payload → Payload) :
    (d.push p x).1.modifyPayload d.size f = (d.push p (f x)).1 := by
  have hnodes : ((d.push p x).1.modifyPayload d.size f).nodes = (d.push p (f x)).1.nodes := by
    refine Array.ext_getElem? fun n => ?_
    rw [getElem?_modifyPayload, getElem?_push, getElem?_push]
    by_cases hn : n = d.size
    · simp [hn]
    · simp [hn, Ne.symm hn]
  exact congrArg (fun nodes => Document.mk nodes d.origin) hnodes

end Document

end MarkupRules.Markup

namespace MarkupRules.Validation

open Markup (Attribute Document Element Name NodeId Tree)
open Program (Check CheckKind Notes Pattern Rule given optional)
open Query (Index Place Scope)

/-! ### Elements with their attributes -/

/-- The attributes among some names and values for which there is a value. -/
def attributesOf (values : List (String × Option String)) : List Attribute :=
  values.flatMap fun a => optional a.1 a.2

theorem setOptional_push (d : Document) (p : NodeId) (name : Name) {attributes : List Attribute}
    {localPart : String} (value : Option String)
    (h : ∀ a ∈ attributes, a.name.same (.plain localPart) = false) :
    setOptional (d.push p (.element ⟨name, attributes, []⟩)).1 d.size localPart value =
      (d.push p (.element ⟨name, attributes ++ optional localPart value, []⟩)).1 := by
  cases value with
  | none => simp [setOptional, Program.optional]
  | some value =>
    show (d.push p _).1.setAttribute d.size (.plain localPart) value = _
    unfold Document.setAttribute Document.modifyElement
    rw [Document.modifyPayload_push]
    simp only [Document.setIn_of_new h]
    rfl

theorem name_of_mem_optional {a : Attribute} {localPart : String} {value : Option String}
    (h : a ∈ optional localPart value) : a.name = .plain localPart := by
  cases value with
  | none => cases h
  | some value =>
    obtain rfl := List.mem_singleton.1 h
    rfl

theorem same_plain_of_ne {a b : String} (h : a ≠ b) : (Name.plain a).same (.plain b) = false := by
  simp [Name.same, Name.plain, h]

/-- Attributes of different names that are set on a new element one after the other are those that
it might have been added with. -/
theorem setAll_push (d : Document) (p : NodeId) (name : Name) :
    ∀ {values : List (String × Option String)} (attributes : List Attribute),
      (values.map Prod.fst).Nodup →
      (∀ a ∈ attributes, ∀ v ∈ values, a.name.same (.plain v.1) = false) →
      values.foldl (fun d' v => setOptional d' d.size v.1 v.2)
          (d.push p (.element ⟨name, attributes, []⟩)).1 =
        (d.push p (.element ⟨name, attributes ++ attributesOf values, []⟩)).1
  | [], attributes, _, _ => by
    rw [attributesOf, List.flatMap_nil, List.append_nil]
    rfl
  | v :: values, attributes, hnodup, hnew => by
    rw [List.map_cons, List.nodup_cons] at hnodup
    have hfirst : ∀ a ∈ attributes, a.name.same (.plain v.1) = false :=
      fun a ha => hnew a ha v List.mem_cons_self
    have hrest : ∀ a ∈ attributes ++ optional v.1 v.2, ∀ w ∈ values,
        a.name.same (.plain w.1) = false := by
      intro a ha w hw
      rcases List.mem_append.1 ha with ha | ha
      · exact hnew a ha w (List.mem_cons_of_mem v hw)
      · rw [name_of_mem_optional ha]
        refine same_plain_of_ne fun he => hnodup.1 ?_
        rw [he]
        exact List.mem_map_of_mem hw
    rw [List.foldl_cons, setOptional_push d p name v.2 hfirst,
      setAll_push d p name _ hnodup.2 hrest, List.append_assoc]
    rfl

theorem appendTerm_eq (d : Document) (parent : NodeId) (localPart : String)
    {values : List (String × Option String)} (hnodup : (values.map Prod.fst).Nodup) :
    appendTerm d parent localPart values =
      d.push parent
        (.element ⟨Name.within reportUri "svrl" localPart, attributesOf values, []⟩) := by
  have hset := setAll_push d parent (Name.within reportUri "svrl" localPart) [] hnodup (by simp)
  exact Prod.ext hset rfl

/-! ### Additions to a recording -/

namespace Recording

/-- A recording with more behind what is there: trees in the document, and members of the lists. -/
def extend (r : Recording) (trees : List Tree) (labels : List String) (fired : List FiredRule)
    (found : List Finding) : Recording where
  svrl := r.svrl.plantAll r.output trees
  output := r.output
  document := r.document
  phase := r.phase
  activePatterns := r.activePatterns ++ labels.toArray
  firedRules := r.firedRules ++ fired.toArray
  failedAssertions := r.failedAssertions ++ (found.filter (·.kind = .assertion)).toArray
  successfulReports := r.successfulReports ++ (found.filter (·.kind = .report)).toArray

variable (r : Recording)

theorem extend_nil : r.extend [] [] [] [] = r := by
  simp [extend, Document.plantAll]

theorem extend_extend (trees trees' : List Tree) (labels labels' : List String)
    (fired fired' : List FiredRule) (found found' : List Finding) :
    (r.extend trees labels fired found).extend trees' labels' fired' found' =
      r.extend (trees ++ trees') (labels ++ labels') (fired ++ fired') (found ++ found') := by
  simp [extend, Document.plantAll_append, Array.append_assoc]

/-- The element of a pattern. -/
theorem activePattern_eq (pattern : Pattern Query) :
    r.activePattern pattern =
      r.extend [reportTerm "active-pattern" (optional "id" pattern.id
        ++ optional "name" pattern.title ++ optional "document" r.document) []]
        [pattern.id.getD ""] [] [] := by
  unfold activePattern
  rw [appendTerm_eq _ _ _ (by simp)]
  simp [extend, attributesOf, reportTerm, Document.plantAll, Document.plant]

theorem firedRule_eq (pattern : Option String) (rule : Rule Query) (location : String) :
    r.firedRule pattern rule location =
      r.extend [reportTerm "fired-rule"
        (given "context" rule.context.source :: rule.notes.toAttributes) []]
        [] [⟨pattern, rule.notes.id, rule.context.source, location⟩] [] := by
  unfold firedRule
  rw [appendTerm_eq _ _ _ (by simp)]
  simp [extend, attributesOf, reportTerm, Document.plantAll, Document.plant, Notes.toAttributes,
    given, Program.optional]

theorem finding_eq (f : Finding) : r.finding f = r.extend [f.toTree] [] [] [f] := by
  unfold finding
  rw [appendTerm_eq _ _ _ (by simp)]
  dsimp only
  rw [appendTerm_eq _ _ _ (by simp)]
  cases hkind : f.kind <;>
    simp [extend, attributesOf, reportTerm, Document.plantAll, Document.plant, Document.push,
      Notes.toAttributes, given, Program.optional, Finding.toTree, hkind]

/-- What happens when a rule fires. -/
def withFiring (d : Document) (pattern : Option String) (r : Recording) (f : Firing) : Recording :=
  r.extend f.toTrees [] [⟨pattern, f.notes.id, f.context, location d f.place⟩] f.findings

/-- What happens when a pattern runs. -/
def withRun (d : Document) (r : Recording) (run : PatternRun) : Recording :=
  r.extend (run.toTrees r.document) [run.label] (run.firedRules d)
    (run.firings.flatMap Firing.findings)

theorem foldl_finding (r : Recording) (found : List Finding) :
    found.foldl finding r = r.extend (found.map Finding.toTree) [] [] found := by
  induction found generalizing r with
  | nil => exact (extend_nil r).symm
  | cons f found ih =>
    rw [List.foldl_cons, finding_eq, ih, extend_extend]
    rfl

theorem foldl_withFiring (d : Document) (pattern : Option String) (r : Recording)
    (firings : List Firing) :
    firings.foldl (withFiring d pattern) r =
      r.extend (firings.flatMap Firing.toTrees) []
        (firings.map fun f => ⟨pattern, f.notes.id, f.context, location d f.place⟩)
        (firings.flatMap Firing.findings) := by
  induction firings generalizing r with
  | nil => exact (extend_nil r).symm
  | cons f firings ih =>
    rw [List.foldl_cons, ih, withFiring, extend_extend]
    rfl

theorem foldl_withRun (d : Document) (r : Recording) (runs : List PatternRun) :
    runs.foldl (withRun d) r =
      r.extend (runs.flatMap (PatternRun.toTrees r.document)) (runs.map PatternRun.label)
        (runs.flatMap (PatternRun.firedRules d))
        (runs.flatMap fun run => run.firings.flatMap Firing.findings) := by
  induction runs generalizing r with
  | nil => exact (extend_nil r).symm
  | cons run runs ih =>
    rw [List.foldl_cons, ih, withRun, extend_extend]
    rfl

end Recording

/-! ### Runs that record -/

section Runs

variable {ix : Index} {pattern : Option String} {rule : Rule Query} {p : Place}

theorem recordChecks_eq {scope : Scope} (cs : List (Check Query)) (r : Recording) :
    recordChecks ix pattern rule p scope cs r =
      (cs.mapM (runCheck ix pattern rule p scope)).map fun found =>
        found.flatten.foldl Recording.finding r := by
  induction cs generalizing r with
  | nil => rfl
  | cons c cs ih =>
    rw [recordChecks, List.mapM_cons]
    cases runCheck ix pattern rule p scope c with
    | error e => rfl
    | ok found =>
      rw [ok_bind, ok_bind, ih]
      cases cs.mapM (runCheck ix pattern rule p scope) with
      | error e => rfl
      | ok more =>
        show Except.ok _ = Except.ok ((found ++ more.flatten).foldl Recording.finding r)
        rw [List.foldl_append]

/-- A rule records what it does when it fires. -/
theorem recordRule_eq (r : Recording) (scope : Scope) :
    recordRule ix pattern p rule r scope =
      (runRule ix pattern p rule scope).map fun o => (r.withFiring ix.doc pattern o.1, o.2) := by
  unfold recordRule runRule
  cases defineAll ix p rule.definitions scope with
  | error e => rfl
  | ok inner =>
    rw [ok_bind, ok_bind, recordChecks_eq]
    cases rule.checks.mapM (runCheck ix pattern rule p inner) with
    | error e => rfl
    | ok found =>
      have hfound : found.flatten.foldl Recording.finding
          (r.firedRule pattern rule (location ix.doc p)) =
            r.withFiring ix.doc pattern ⟨rule.context.source, rule.notes, p, found.flatten⟩ := by
        rw [Recording.firedRule_eq, Recording.foldl_finding, Recording.extend_extend]
        rfl
      exact congrArg (fun r' => Except.ok (r', inner.truncate scope.size)) hfound

/-- Where every step records what it does, so does the work through a list. -/
theorem recordAll_eq {α β : Type} {recordStep : α → Recording → OnStack Recording}
    {step : α → OnStack β} {add : Recording → β → Recording}
    (hstep : ∀ a r scope, recordStep a r scope = (step a scope).map fun o => (add r o.1, o.2))
    (as : List α) (r : Recording) (scope : Scope) :
    recordAll recordStep as r scope =
      (onStackAll step as scope).map fun o => (o.1.foldl add r, o.2) := by
  induction as generalizing r scope with
  | nil => rfl
  | cons a as ih =>
    rw [recordAll, onStackAll, hstep]
    cases step a scope with
    | error e => rfl
    | ok o =>
      obtain ⟨b, left⟩ := o
      show recordAll recordStep as (add r b) left = _
      rw [ih, ok_bind]
      dsimp only
      cases onStackAll step as left <;> rfl

/-- A pattern records what it does when it runs. -/
theorem recordPattern_eq (pattern : Pattern Query) (r : Recording) (scope : Scope) :
    recordPattern ix pattern r scope =
      (runPattern ix pattern scope).map fun o => (r.withRun ix.doc o.1, o.2) := by
  unfold recordPattern runPattern
  cases defineAll ix (.node Document.root) pattern.definitions scope with
  | error e => rfl
  | ok inner =>
    rw [ok_bind, ok_bind]
    cases matchesOf ix inner pattern.rules with
    | error e => rfl
    | ok ms =>
      have hrule : ∀ (m : Place × Rule Query) (r : Recording) (scope : Scope),
          recordRule ix pattern.id m.1 m.2 r scope =
            (runRule ix pattern.id m.1 m.2 scope).map fun o =>
              (r.withFiring ix.doc pattern.id o.1, o.2) :=
        fun m r scope => recordRule_eq r scope
      rw [ok_bind, ok_bind, recordAll_eq hrule]
      cases onStackAll (fun m => runRule ix pattern.id m.1 m.2) (firstMatches ix ms) inner with
      | error e => rfl
      | ok o =>
        have hrun : o.1.foldl (Recording.withFiring ix.doc pattern.id) (r.activePattern pattern) =
            r.withRun ix.doc ⟨pattern.id, pattern.title, o.1⟩ := by
          rw [Recording.activePattern_eq, Recording.foldl_withFiring, Recording.extend_extend]
          rfl
        exact congrArg (fun r' => Except.ok (r', o.2.truncate scope.size)) hrun

end Runs

/-- The recording of a validation that came to a report. -/
def Report.recording (report : Report) : Recording where
  svrl := report.toDocument
  output := 1
  document := report.origin
  phase := report.phase
  activePatterns := report.activePatterns.toArray
  firedRules := report.firedRules.toArray
  failedAssertions := report.failedAssertions.toArray
  successfulReports := report.successfulReports.toArray

theorem foldl_namespaceTree (svrl : Document) (output : NodeId)
    (namespaces : List (String × String)) :
    namespaces.foldl (fun svrl n => (appendTerm svrl output "ns-prefix-in-attribute-values"
        [("prefix", some n.1), ("uri", some n.2)]).1) svrl =
      svrl.plantAll output (namespaces.map namespaceTree) := by
  induction namespaces generalizing svrl with
  | nil => rfl
  | cons n namespaces ih =>
    rw [List.foldl_cons, ih, appendTerm_eq _ _ _ (by simp)]
    rfl

/-- A recording starts with the element of a report and those of the namespaces. -/
theorem start_eq (document : Option String) (program : Program Query) :
    Recording.start document program =
      ⟨(Document.empty.push Document.root (.element
          ⟨Name.within reportUri "svrl" "schematron-output",
            given "phase" program.phase :: optional "title" program.title, []⟩)).1.plantAll 1
          ((program.context.bindings.entries.filter fun n => n.1 ≠ Markup.xmlLabel).map
            namespaceTree),
        1, document, program.phase, #[], #[], #[], #[]⟩ := by
  have hattributes : attributesOf [("phase", some program.phase), ("title", program.title)] =
      given "phase" program.phase :: optional "title" program.title := by
    simp [attributesOf, Program.optional, given]
  unfold Recording.start
  rw [appendTerm_eq _ _ _ (by simp), hattributes]
  dsimp only
  rw [foldl_namespaceTree]
  rfl

theorem findingsOf_eq (report : Report) (kind : CheckKind) :
    report.findingsOf kind =
      (report.patterns.flatMap fun run => run.firings.flatMap Firing.findings).filter
        (·.kind = kind) := by
  unfold Report.findingsOf PatternRun.findingsOf
  rw [List.filter_flatMap]
  refine congrArg (List.flatMap · report.patterns) (funext fun run => ?_)
  rw [List.filter_flatMap]

/-- A recording of runs from the start on is that of the report with these runs. -/
theorem foldl_withRun_start (d : Document) (program : Program Query) (runs : List PatternRun) :
    runs.foldl (Recording.withRun d) (Recording.start d.origin program) =
      Report.recording
        ⟨d, program.phase, program.title, program.context.bindings.entries, runs⟩ := by
  rw [Recording.foldl_withRun, start_eq]
  unfold Recording.extend Report.recording Report.failedAssertions Report.successfulReports
  rw [findingsOf_eq, findingsOf_eq, ← Document.plantAll_append]
  simp only [Array.empty_append]
  rfl

/-- Recording a validation gives the recording of its report, and fails where it fails. -/
theorem recordProgram_eq (program : Program Query) (d : Document)
    (parameters : Option Parameters) :
    recordProgram program d parameters =
      (runProgram program d parameters).map Report.recording := by
  unfold recordProgram runProgram
  dsimp only
  cases defineAll (.ofDocument d) (.node Document.root) program.definitions
      (parameterScope parameters) with
  | error e => rfl
  | ok scope =>
    have hall := recordAll_eq (@recordPattern_eq (.ofDocument d)) program.patterns
      (Recording.start d.origin program) scope
    rw [ok_bind, ok_bind, hall]
    cases onStackAll (runPattern (.ofDocument d)) program.patterns scope with
    | error e => rfl
    | ok o => exact congrArg Except.ok (foldl_withRun_start d program o.1)

end MarkupRules.Validation
