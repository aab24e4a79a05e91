/-
# What a validation finds

A report keeps what happened in the order in which it happened: the patterns that ran, for each
the rules that fired with the nodes they fired at, and for each of these the findings of its
checks. The lists that are usually wanted are read off it, with the nodes told by their locations.

Key definitions: `Finding`, `Firing`, `PatternRun`, `Report`, `Report.summary`.
-/
import MarkupRules.Program.Basic
import MarkupRules.Validation.Location

namespace MarkupRules.Validation

open Markup (Document)
open Program (CheckKind Notes)
open Query (Place)

/-- What a check found at a node. -/
structure Finding where
  /-- The kind of check. -/
  kind : CheckKind
  /-- The identifier of the check, and its role and flag or else those of its rule. -/
  notes : Notes
  /-- The test as written. -/
  test : String
  /-- Where the node is. -/
  location : String
  /-- The identifier of the pattern. -/
  pattern : Option String
  /-- The identifier of the rule. -/
  rule : Option String
  /-- The message, its words separated by single spaces. -/
  message : String
  deriving DecidableEq, Repr

/-- A rule that handled a node. -/
structure Firing where
  /-- The context of the rule as written. -/
  context : String
  /-- The identifier, role and flag of the rule. -/
  notes : Notes
  /-- The node. -/
  place : Place
  /-- What the checks of the rule found, in their order. -/
  findings : List Finding
  deriving DecidableEq, Repr

/-- A pattern that ran. -/
structure PatternRun where
  /-- The identifier of the pattern. -/
  id : Option String
  /-- The title of the pattern. -/
  title : Option String
  /-- The rules that fired, in the order of their nodes in the document. -/
  firings : List Firing
  deriving DecidableEq, Repr

namespace PatternRun

/-- The identifier of the pattern; empty for one without. -/
def label (p : PatternRun) : String :=
  p.id.getD ""

/-- What checks of a kind found, in order. -/
def findingsOf (p : PatternRun) (kind : CheckKind) : List Finding :=
  p.firings.flatMap fun f => f.findings.filter fun finding => finding.kind = kind

end PatternRun

/-- A rule that fired, as it is listed. -/
structure FiredRule where
  /-- The identifier of the pattern. -/
  pattern : Option String
  /-- The identifier of the rule. -/
  rule : Option String
  /-- The context of the rule as written. -/
  context : String
  /-- Where the node is. -/
  location : String
  deriving DecidableEq, Repr

/-- The rules of a pattern that fired on a document, in order. -/
def PatternRun.firedRules (d : Document) (p : PatternRun) : List FiredRule :=
  p.firings.map fun f => ⟨p.id, f.notes.id, f.context, location d f.place⟩

/-- The outcome of a validation. -/
structure Report where
  /-- The document. -/
  document : Document
  /-- The phase that the program is for. -/
  phase : String
  /-- The title of the schema. -/
  title : Option String
  /-- The namespaces of the labels in expressions. -/
  namespaces : List (String × String)
  /-- The patterns that ran, in order. -/
  patterns : List PatternRun
  deriving DecidableEq, Repr

namespace Report

/-- The locator of the document. -/
def origin (r : Report) : Option String :=
  r.document.origin

/-- The identifiers of the patterns that ran; empty for those without one. -/
def activePatterns (r : Report) : List String :=
  r.patterns.map PatternRun.label

/-- The rules that fired, in order. -/
def firedRules (r : Report) : List FiredRule :=
  r.patterns.flatMap (PatternRun.firedRules r.document)

/-- How many rules fired. -/
def firingCount (r : Report) : Nat :=
  (r.patterns.flatMap PatternRun.firings).length

/-- What checks of a kind found, in order. -/
def findingsOf (r : Report) (kind : CheckKind) : List Finding :=
  r.patterns.flatMap fun p => p.findingsOf kind

/-- What assertions found. -/
def failedAssertions (r : Report) : List Finding :=
  r.findingsOf .assertion

/-- What reports found. -/
def successfulReports (r : Report) : List Finding :=
  r.findingsOf .report

/-- Whether nothing was found. -/
def isValid (r : Report) : Bool :=
  r.failedAssertions.isEmpty && r.successfulReports.isEmpty

/-- What was found, assertions first. -/
def messages (r : Report) : List Finding :=
  r.failedAssertions ++ r.successfulReports

/-- The outcome on one line. -/
def summary (r : Report) : String :=
  (if r.isValid then "valid" else "invalid")
    ++ ": " ++ toString r.firingCount ++ " fired rule(s), "
    ++ toString r.failedAssertions.length ++ " failed assert(s), "
    ++ toString r.successfulReports.length ++ " successful report(s)"

end Report

end MarkupRules.Validation
