/-
# Reports as documents

A report is passed on as a document of elements in a namespace of its own: the namespaces of the
labels in expressions, then for every pattern that ran its firings, each followed by what was
found.

Key definitions: `reportUri`, `Report.toTree`, `Report.toDocument`.
-/
import MarkupRules.Program.Writer
import MarkupRules.Validation.Report

namespace MarkupRules.Validation

open Markup (Attribute Document Name Tree)
open Program (CheckKind Notes given optional)

/-- The namespace of the elements of a report. -/
def reportUri : String := "http://purl.oclc.org/dsdl/svrl"

/-- An element of a report. -/
def reportTerm (localPart : String) (attributes : List Attribute) (content : List Tree) : Tree :=
  .node (.element ⟨Name.within reportUri "svrl" localPart, attributes, []⟩) content

/-- The name of the element for what checks of a kind find. -/
def findingLabel : CheckKind → String
  | .assertion => "failed-assert"
  | .report => "successful-report"

/-- The element of a finding. -/
def Finding.toTree (f : Finding) : Tree :=
  reportTerm (findingLabel f.kind)
    (given "test" f.test :: given "location" f.location :: f.notes.toAttributes)
    [reportTerm "text" [] [.node (.text f.message) []]]

/-- The element of a firing, followed by those of its findings. -/
def Firing.toTrees (f : Firing) : List Tree :=
  reportTerm "fired-rule" (given "context" f.context :: f.notes.toAttributes) []
    :: f.findings.map Finding.toTree

/-- The element of a pattern that ran on a document, followed by those of its firings. -/
def PatternRun.toTrees (document : Option String) (p : PatternRun) : List Tree :=
  reportTerm "active-pattern"
      (optional "id" p.id ++ optional "name" p.title ++ optional "document" document) []
    :: p.firings.flatMap Firing.toTrees

/-- The element of a namespace. -/
def namespaceTree (n : String × String) : Tree :=
  reportTerm "ns-prefix-in-attribute-values" [given "prefix" n.1, given "uri" n.2] []

namespace Report

/-- The namespaces that are listed: all but the one that is always bound. -/
def listedNamespaces (r : Report) : List (String × String) :=
  r.namespaces.filter fun n => n.1 ≠ Markup.xmlLabel

/-- The element of a report. -/
def toTree (r : Report) : Tree :=
  reportTerm "schematron-output" (given "phase" r.phase :: optional "title" r.title)
    (r.listedNamespaces.map namespaceTree ++ r.patterns.flatMap (PatternRun.toTrees r.origin))

/-- The document of a report. -/
def toDocument (r : Report) : Document :=
  Document.ofForest [r.toTree]

end Report

end MarkupRules.Validation
