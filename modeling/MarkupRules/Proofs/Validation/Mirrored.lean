/-
# What the document of a recording says

The document of a recording can be read back without knowing how it was written: every element in it
says that a namespace is bound, that a pattern ran, that a rule fired or what was found. Read in
order, these are the namespaces, and then for every pattern its firings, each with its findings; and
what is said of patterns, rules and findings is what the lists of the recording hold.

Key definitions: `Entry`, `Entry.ofTree?`, `Entry.ofRun`, `Recording.entries?`, `Report.entries`.

Key theorems: `map_ofTree?_run`, `recording_svrl`, `entries?_recording`, `labels_entries`,
`fired_entries`, `found_entries`, `recording_mirrors_run`.
-/
import MarkupRules.Proofs.Markup.Settled
import MarkupRules.Proofs.Validation.Recorded
import MarkupRules.Proofs.Validation.Stack

namespace MarkupRules.Validation

open Markup (Attribute Document Element Name NodeId Tree)
open Markup.Tree (Apart Firm)
open Program (CheckKind Notes Pattern Rule given optional valueIn valueIn_append valueIn_given
  valueIn_notes valueIn_optional)

/-! ### Reading -/

/-- What an element says of a finding. -/
structure Said where
  /-- The test as written. -/
  test : String
  /-- Where the node is. -/
  location : String
  /-- The identifier, role and flag. -/
  notes : Notes
  /-- The text below the element. -/
  text : String
  deriving DecidableEq

/-- What an element in the document of a recording says. -/
inductive Entry where
  /-- A label is bound to a namespace. -/
  | namespace (label uri : String)
  /-- A pattern with this identifier, or without one, ran. -/
  | pattern (id : Option String)
  /-- A rule with this context and identifier fired. -/
  | firing (context : String) (rule : Option String)
  /-- A check of this kind found something. -/
  | finding (kind : CheckKind) (said : Said)
  deriving DecidableEq

namespace Said

/-- What an element says of a finding, if it says enough. -/
def ofTree? (t : Tree) : Option Said := do
  let test ← t.attribute? "test"
  let location ← t.attribute? "location"
  let text ← t.childElements.find? fun c => c.isElement reportUri "text"
  some ⟨test, location, ⟨t.attribute? "id", t.attribute? "role", t.attribute? "flag"⟩,
    text.stringValue⟩

end Said

namespace Entry

/-- What an element says, if it is one of those in a report. -/
def ofTree? (t : Tree) : Option Entry :=
  if t.isElement reportUri "ns-prefix-in-attribute-values" then do
    let label ← t.attribute? "prefix"
    let uri ← t.attribute? "uri"
    some (.namespace label uri)
  else if t.isElement reportUri "active-pattern" then some (.pattern (t.attribute? "id"))
  else if t.isElement reportUri "fired-rule" then
    (t.attribute? "context").map fun context => .firing context (t.attribute? "id")
  else if t.isElement reportUri "failed-assert" then (Said.ofTree? t).map (.finding .assertion)
  else if t.isElement reportUri "successful-report" then (Said.ofTree? t).map (.finding .report)
  else none

/-- The identifier of a pattern that ran; empty for one without. -/
def label? : Entry → Option String
  | pattern id => some (id.getD "")
  | _ => none

/-- The context and the identifier of a rule that fired. -/
def fired? : Entry → Option (String × Option String)
  | firing context rule => some (context, rule)
  | _ => none

/-- What a check of a kind found. -/
def found? (kind : CheckKind) : Entry → Option Said
  | finding other said => if other = kind then some said else none
  | _ => none

end Entry

/-- What is said of a finding. -/
def Finding.said (f : Finding) : Said :=
  ⟨f.test, f.location, f.notes, f.message⟩

/-- A rule that fired, followed by what its checks found. -/
def Entry.ofFiring (f : Firing) : List Entry :=
  .firing f.context f.notes.id :: f.findings.map fun finding => .finding finding.kind finding.said

/-- A pattern that ran, followed by its firings. -/
def Entry.ofRun (run : PatternRun) : List Entry :=
  .pattern run.id :: run.firings.flatMap Entry.ofFiring

/-- What the elements in the document of a recording say, if all say something. -/
def Recording.entries? (r : Recording) : Option (List Entry) :=
  (r.svrl.children r.output).mapM fun n => Entry.ofTree? (r.svrl.subtree n)

/-! ### Written and read -/

theorem attribute?_reportTerm {l name : String} {as : List Attribute} {content : List Tree} :
    (reportTerm l as content).attribute? name = valueIn as name :=
  rfl

theorem isElement_reportTerm {l name : String} {as : List Attribute} {content : List Tree} :
    (reportTerm l as content).isElement reportUri name = (l == name) := by
  simp [reportTerm, Tree.isElement, Tree.element?, Tree.payload, Name.isIn, Name.within]

theorem stringValue_text (s : String) :
    (reportTerm "text" [] [.node (.text s) []]).stringValue = s := by
  simp [reportTerm, Tree.stringValue, Tree.payload, Tree.descendants, Tree.children,
    Tree.subtreesOfAll, Tree.subtrees, Tree.ownText]

theorem ofTree?_namespaceTree (n : String × String) :
    Entry.ofTree? (namespaceTree n) = some (.namespace n.1 n.2) := by
  simp [Entry.ofTree?, namespaceTree, isElement_reportTerm, attribute?_reportTerm, valueIn_given]

theorem saidOf_toTree (f : Finding) : Said.ofTree? f.toTree = some f.said := by
  have htext : f.toTree.childElements.find? (fun c => c.isElement reportUri "text") =
      some (reportTerm "text" [] [.node (.text f.message) []]) := rfl
  unfold Said.ofTree?
  rw [htext]
  simp [Finding.toTree, Finding.said, attribute?_reportTerm, valueIn_given, valueIn_notes,
    stringValue_text]

theorem ofTree?_finding (f : Finding) :
    Entry.ofTree? f.toTree = some (.finding f.kind f.said) := by
  unfold Entry.ofTree?
  rw [saidOf_toTree]
  cases hkind : f.kind <;> simp [Finding.toTree, findingLabel, hkind, isElement_reportTerm]

/-- The elements of a firing and of its findings. -/
theorem map_ofTree?_firing (f : Firing) :
    f.toTrees.map Entry.ofTree? = (Entry.ofFiring f).map some := by
  have hfired : Entry.ofTree? (reportTerm "fired-rule"
      (given "context" f.context :: f.notes.toAttributes) []) =
        some (.firing f.context f.notes.id) := by
    simp [Entry.ofTree?, isElement_reportTerm, attribute?_reportTerm, valueIn_given, valueIn_notes]
  rw [Firing.toTrees, Entry.ofFiring, List.map_cons, List.map_cons, hfired, List.map_map,
    List.map_map]
  exact congrArg (List.cons _) (List.map_congr_left fun finding _ => ofTree?_finding finding)

/-- The elements of a pattern and of its firings. -/
theorem map_ofTree?_run (document : Option String) (run : PatternRun) :
    (run.toTrees document).map Entry.ofTree? = (Entry.ofRun run).map some := by
  have hactive : Entry.ofTree? (reportTerm "active-pattern" (optional "id" run.id
      ++ optional "name" run.title ++ optional "document" document) []) =
        some (.pattern run.id) := by
    simp [Entry.ofTree?, isElement_reportTerm, attribute?_reportTerm, valueIn_append,
      valueIn_optional]
  rw [PatternRun.toTrees, Entry.ofRun, List.map_cons, List.map_cons, hactive, List.map_flatMap,
    List.map_flatMap]
  exact congrArg (fun firing => some (Entry.pattern run.id) :: run.firings.flatMap firing)
    (funext map_ofTree?_firing)

/-! ### The document of a recording -/

theorem apart_of_not_isText {ts : List Tree} (h : ∀ t ∈ ts, ¬ t.isText) : Apart ts := by
  refine List.Pairwise.isChain (List.pairwise_of_forall_mem_list ?_)
  intro a ha b _ hboth
  exact h a ha hboth.1

theorem firm_reportTerm {l : String} {as : List Attribute} {ts : List Tree}
    (hts : ∀ t ∈ ts, Firm t) (happart : Apart ts) : Firm (reportTerm l as ts) :=
  .node (by simp) (by simp) happart hts

theorem firm_leaf (l : String) (as : List Attribute) : Firm (reportTerm l as []) :=
  firm_reportTerm (by simp) .nil

theorem firm_finding (f : Finding) : Firm f.toTree := by
  have htext : Firm (reportTerm "text" [] [.node (.text f.message) []]) :=
    firm_reportTerm (List.forall_mem_singleton.2 (Markup.Tree.firm_text f.message)) (.singleton _)
  exact firm_reportTerm (List.forall_mem_singleton.2 htext) (.singleton _)

/-- What a report adds to its element: the elements of the namespaces, and those of the patterns
with what happened in them. -/
def Report.content (report : Report) : List Tree :=
  report.listedNamespaces.map namespaceTree
    ++ report.patterns.flatMap (PatternRun.toTrees report.origin)

/-- A property of all elements that a report adds. -/
theorem forall_mem_content {P : Tree → Prop} (hleaf : ∀ l as, P (reportTerm l as []))
    (hfinding : ∀ f : Finding, P f.toTree) (report : Report) : ∀ t ∈ report.content, P t := by
  intro t ht
  rcases List.mem_append.1 ht with ht | ht
  · obtain ⟨n, -, rfl⟩ := List.mem_map.1 ht
    exact hleaf _ _
  · obtain ⟨run, -, ht⟩ := List.mem_flatMap.1 ht
    rcases List.mem_cons.1 ht with rfl | ht
    · exact hleaf _ _
    · obtain ⟨f, -, ht⟩ := List.mem_flatMap.1 ht
      rcases List.mem_cons.1 ht with rfl | ht
      · exact hleaf _ _
      · obtain ⟨finding, -, rfl⟩ := List.mem_map.1 ht
        exact hfinding finding

theorem settleAll_content (report : Report) :
    Markup.Tree.settleAll [] report.content = report.content := by
  have hfirm : ∀ t ∈ report.content, Firm t :=
    forall_mem_content firm_leaf firm_finding report
  have happart : Apart report.content :=
    apart_of_not_isText (forall_mem_content (P := fun t => ¬ t.isText)
      (fun l as h => nomatch h) (fun f h => nomatch h) report)
  exact Markup.Tree.settleAll_of_firm report.content hfirm happart (by simp)

/-- The document of a report has one element, and below it stands what the report adds. -/
theorem recording_svrl (report : Report) :
    report.recording.svrl.children Document.root = [report.recording.output] ∧
      report.recording.svrl.isElement report.recording.output reportUri "schematron-output" ∧
      report.recording.svrl.forest report.recording.output = report.content := by
  let top : Markup.Payload := .element ⟨Name.within reportUri "svrl" "schematron-output",
    given "phase" report.phase :: optional "title" report.title, []⟩
  have hempty := Document.linked_empty
  have hroot : Document.root < Document.empty.size := hempty.root_lt
  have hlinked := Document.linked_push hempty hroot top
  obtain ⟨hgrows, hforest⟩ := Document.plantAll_spec report.content hlinked
    (show 1 < (Document.empty.push Document.root top).1.size from Nat.lt_succ_self 1)
  have hsvrl : report.recording.svrl =
      (Document.empty.push Document.root top).1.plantAll 1 report.content := rfl
  rw [hsvrl]
  refine ⟨?_, ?_, ?_⟩
  · rw [hgrows.children Document.root hlinked.root_lt (by decide), Document.children_push hroot,
      if_pos rfl]
    rfl
  · have hpayload := hgrows.payload_self hlinked (Nat.lt_succ_self 1)
    show Document.isElement _ 1 reportUri "schematron-output" = true
    unfold Document.isElement Document.name? Document.element?
    rw [hpayload]
    rfl
  · have hnew : (Document.empty.push Document.root top).1.forest 1 = [] :=
      Document.forest_new hroot top
    show Document.forest _ 1 = _
    rw [hforest, hnew, settleAll_content]

theorem mapM_of_map_eq {α β : Type} {f : α → Option β} :
    ∀ {xs : List α} {ys : List β}, xs.map f = ys.map some → xs.mapM f = some ys
  | [], [], _ => rfl
  | x :: xs, y :: ys, h => by
    obtain ⟨hx, hxs⟩ := List.cons.inj h
    rw [List.mapM_cons, hx, mapM_of_map_eq hxs]
    rfl

/-- What the entries of a report are: first the namespaces, and then, pattern by pattern, what
happened. -/
def Report.entries (report : Report) : List Entry :=
  report.listedNamespaces.map (fun n => .namespace n.1 n.2)
    ++ report.patterns.flatMap Entry.ofRun

theorem map_ofTree?_content (report : Report) :
    report.content.map Entry.ofTree? = report.entries.map some := by
  have hnamespaces : (report.listedNamespaces.map namespaceTree).map Entry.ofTree? =
      (report.listedNamespaces.map fun n => Entry.namespace n.1 n.2).map some := by
    rw [List.map_map, List.map_map]
    exact List.map_congr_left fun n _ => ofTree?_namespaceTree n
  have hruns : (report.patterns.flatMap (PatternRun.toTrees report.origin)).map Entry.ofTree? =
      (report.patterns.flatMap Entry.ofRun).map some := by
    rw [List.map_flatMap, List.map_flatMap]
    exact congrArg (List.flatMap · report.patterns) (funext (map_ofTree?_run report.origin))
  rw [Report.content, Report.entries, List.map_append, List.map_append, hnamespaces, hruns]

/-- Everything below the element of a report is an entry. -/
theorem entries?_recording (report : Report) :
    report.recording.entries? = some report.entries := by
  have hforest := (recording_svrl report).2.2
  refine mapM_of_map_eq ?_
  calc (report.recording.svrl.children report.recording.output).map
        (fun n => Entry.ofTree? (report.recording.svrl.subtree n))
      = (report.recording.svrl.forest report.recording.output).map Entry.ofTree? := by
        rw [Document.forest, List.map_map]
        rfl
    _ = report.content.map Entry.ofTree? := by rw [hforest]
    _ = report.entries.map some := map_ofTree?_content report

/-! ### The lists of a recording -/

section Lists

variable (report : Report)

/-- What is read off the entries of a report is read off its patterns one by one, where nothing is
read off a namespace. -/
theorem filterMap_entries {α : Type} {read : Entry → Option α}
    (hnamespace : ∀ label uri, read (.namespace label uri) = none) :
    report.entries.filterMap read =
      report.patterns.flatMap fun run => (Entry.ofRun run).filterMap read := by
  have hnone : (report.listedNamespaces.map fun n => Entry.namespace n.1 n.2).filterMap read =
      [] := by
    rw [List.filterMap_eq_nil_iff]
    intro entry hentry
    obtain ⟨n, -, rfl⟩ := List.mem_map.1 hentry
    exact hnamespace n.1 n.2
  rw [Report.entries, List.filterMap_append, hnone, List.nil_append, List.filterMap_flatMap]

/-- Of a firing only its own entry is read where nothing is read off findings. -/
theorem filterMap_ofFiring {α : Type} (read : Entry → Option α)
    (hfinding : ∀ kind said, read (.finding kind said) = none) (f : Firing) :
    (Entry.ofFiring f).filterMap read = (read (.firing f.context f.notes.id)).toList := by
  have hnone : (f.findings.map fun finding => Entry.finding finding.kind finding.said).filterMap
      read = [] := by
    rw [List.filterMap_eq_nil_iff]
    intro entry hentry
    obtain ⟨finding, -, rfl⟩ := List.mem_map.1 hentry
    exact hfinding finding.kind finding.said
  rw [Entry.ofFiring, List.filterMap_cons, hnone]
  cases read (.firing f.context f.notes.id) <;> rfl

theorem found?_ofFiring (kind : CheckKind) (f : Firing) :
    (Entry.ofFiring f).filterMap (Entry.found? kind) =
      (f.findings.filter (·.kind = kind)).map Finding.said := by
  rw [Entry.ofFiring, List.filterMap_cons, List.filterMap_map, ← List.filterMap_eq_map,
    List.filterMap_filter]
  refine congrArg (List.filterMap · f.findings) (funext fun finding => ?_)
  by_cases h : finding.kind = kind <;> simp [Entry.found?, h]

theorem labels_entries : report.entries.filterMap Entry.label? = report.activePatterns := by
  have hrun : ∀ run : PatternRun, (Entry.ofRun run).filterMap Entry.label? = [run.label] := by
    intro run
    rw [Entry.ofRun, List.filterMap_cons, List.filterMap_flatMap]
    simp only [filterMap_ofFiring Entry.label? (fun _ _ => rfl)]
    simp [Entry.label?, PatternRun.label]
  rw [filterMap_entries report fun _ _ => rfl]
  simp only [hrun]
  exact List.map_eq_flatMap.symm

theorem fired_entries : report.entries.filterMap Entry.fired? =
    report.firedRules.map fun f => (f.context, f.rule) := by
  have hrun : ∀ run : PatternRun, (Entry.ofRun run).filterMap Entry.fired? =
      (run.firedRules report.document).map fun f => (f.context, f.rule) := by
    intro run
    rw [Entry.ofRun, List.filterMap_cons, List.filterMap_flatMap]
    simp only [filterMap_ofFiring Entry.fired? (fun _ _ => rfl), PatternRun.firedRules,
      List.map_map]
    exact List.map_eq_flatMap.symm
  rw [filterMap_entries report fun _ _ => rfl, Report.firedRules, List.map_flatMap]
  exact congrArg (List.flatMap · report.patterns) (funext hrun)

theorem found_entries (kind : CheckKind) : report.entries.filterMap (Entry.found? kind) =
    (report.findingsOf kind).map Finding.said := by
  have hrun : ∀ run : PatternRun, (Entry.ofRun run).filterMap (Entry.found? kind) =
      (run.findingsOf kind).map Finding.said := by
    intro run
    rw [Entry.ofRun, List.filterMap_cons, List.filterMap_flatMap, PatternRun.findingsOf,
      List.map_flatMap]
    exact congrArg (List.flatMap · run.firings) (funext (found?_ofFiring kind))
  rw [filterMap_entries report fun _ _ => rfl, Report.findingsOf, List.map_flatMap]
  exact congrArg (List.flatMap · report.patterns) (funext hrun)

end Lists

/-- The document of a recording tells the same as its lists. Below its one element stand the
namespaces of the program, all but the one that is always bound, and then for every pattern in order
its element, its firings in order and behind each its findings. Read in order, the elements of
patterns give the identifiers of the patterns that ran, those of firings the rules that fired, and
those of findings what assertions and reports found. -/
theorem recording_mirrors_run {program : Program Query} {d : Document}
    {parameters : Option Parameters} {r : Recording}
    (h : recordProgram program d parameters = .ok r) :
    r.svrl.children Document.root = [r.output] ∧
    r.svrl.isElement r.output reportUri "schematron-output" ∧
    ∃ report entries, runProgram program d parameters = .ok report ∧
      report.patterns.map PatternRun.id = program.patterns.map Pattern.id ∧
      r.entries? = some entries ∧
      entries = (program.context.bindings.entries.filter fun n => n.1 ≠ Markup.xmlLabel).map
          (fun n => .namespace n.1 n.2) ++ report.patterns.flatMap Entry.ofRun ∧
      entries.filterMap Entry.label? = r.activePatterns.toList ∧
      entries.filterMap Entry.fired? = r.firedRules.toList.map (fun f => (f.context, f.rule)) ∧
      entries.filterMap (Entry.found? .assertion) = r.failedAssertions.toList.map Finding.said ∧
      entries.filterMap (Entry.found? .report) = r.successfulReports.toList.map Finding.said := by
  rw [recordProgram_eq] at h
  obtain ⟨report, hreport, rfl⟩ := map_eq_ok_iff.1 h
  obtain ⟨hchildren, houtput, -⟩ := recording_svrl report
  refine ⟨hchildren, houtput, report, report.entries, hreport, ?_, entries?_recording report, ?_,
    labels_entries report, fired_entries report, found_entries report .assertion,
    found_entries report .report⟩
  · obtain ⟨scope, runs, -, hruns, rfl⟩ := runProgram_eq_ok_iff.1 hreport
    refine map_eq_of_forall₂ hruns fun pattern run hrun => ?_
    obtain ⟨-, inner, ms, firings, -, -, -, rfl⟩ := runPattern_eq_ok_iff.1 hrun
    rfl
  · obtain ⟨scope, runs, -, -, rfl⟩ := runProgram_eq_ok_iff.1 hreport
    rfl

/-- On the shelf one rule fires at the identified book and another at its identifier and the other
book; each finds something. -/
theorem recording_mirrors_run_on_shelf :
    ∃ r entries, recordProgram (withOnly shelfProgram overlappingPattern) .shelf none = .ok r ∧
      r.entries? = some entries ∧
      entries.filterMap Entry.label? = ["overlapping"] ∧
      entries.filterMap Entry.fired? =
        [("//book[@id]", some "identified"), ("//book | //@id", some "any"),
          ("//book | //@id", some "any")] ∧
      (entries.filterMap (Entry.found? .assertion)).map Said.text = ["kept"] ∧
      (entries.filterMap (Entry.found? .report)).map Said.location =
        ["/shelf[1]/book[1]/@id", "/shelf[1]/book[2]"] := by
  obtain ⟨report, hreport, hactive, hfired, hfailed, hreports⟩ : ∃ report,
      runProgram (withOnly shelfProgram overlappingPattern) .shelf none = .ok report ∧
        report.activePatterns = ["overlapping"] ∧
        (report.firedRules.map fun f => (f.context, f.rule)) =
          [("//book[@id]", some "identified"), ("//book | //@id", some "any"),
            ("//book | //@id", some "any")] ∧
        report.failedAssertions.map Finding.message = ["kept"] ∧
        report.successfulReports.map Finding.location =
          ["/shelf[1]/book[1]/@id", "/shelf[1]/book[2]"] :=
    ⟨_, runProgram_withOnly_of_firings rfl rfl rfl (by decide)
      (.cons rfl (.cons rfl (.cons rfl .nil))), rfl, rfl, rfl, rfl⟩
  have hrecorded : recordProgram (withOnly shelfProgram overlappingPattern) .shelf none =
      .ok report.recording := by
    rw [recordProgram_eq, hreport]
    rfl
  obtain ⟨-, -, -, entries, -, -, hentries, -, hlabels, hrules, hassertions, hfound⟩ :=
    recording_mirrors_run hrecorded
  refine ⟨report.recording, entries, hrecorded, hentries, ?_, ?_, ?_, ?_⟩
  · rw [hlabels]
    exact hactive
  · rw [hrules]
    exact hfired
  · rw [hassertions, List.map_map]
    exact hfailed
  · rw [hfound, List.map_map]
    exact hreports

end MarkupRules.Validation
