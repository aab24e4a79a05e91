/-
# Reports as JSON

A report is one record whose members stand in the order of their names. The time a validation
took is a member too and given from outside.

Key definitions: `Report.toJson`.
-/
import MarkupRules.Json.Basic
import MarkupRules.Validation.Report

namespace MarkupRules.Validation

open Program (CheckKind)

/-- A text, or null. -/
def jsonText? : Option String → Json
  | some s => .text s
  | none => .null

/-- How the kind of a check is written. -/
def kindText : CheckKind → String
  | .assertion => "assert"
  | .report => "report"

/-- A finding as JSON. -/
def Finding.toJson (f : Finding) : Json :=
  .record [
    ("flag", jsonText? f.notes.flag),
    ("id", jsonText? f.notes.id),
    ("kind", .text (kindText f.kind)),
    ("location", .text f.location),
    ("message", .text f.message),
    ("pattern", jsonText? f.pattern),
    ("role", jsonText? f.notes.role),
    ("rule", jsonText? f.rule),
    ("test", .text f.test)]

/-- A rule that fired as JSON. -/
def FiredRule.toJson (r : FiredRule) : Json :=
  .record [
    ("context", .text r.context),
    ("location", .text r.location),
    ("pattern", jsonText? r.pattern),
    ("rule", jsonText? r.rule)]

/-- A report as JSON, for a validation that took so many milliseconds. -/
def Report.toJson (r : Report) (milliseconds : Nat) : Json :=
  .record [
    ("active_patterns", .list (r.activePatterns.map .text)),
    ("document", jsonText? r.origin),
    ("duration_ms", .whole milliseconds),
    ("failed_asserts", .list (r.failedAssertions.map Finding.toJson)),
    ("fired_rules", .list (r.firedRules.map FiredRule.toJson)),
    ("phase", .text r.phase),
    ("successful_reports", .list (r.successfulReports.map Finding.toJson))]

end MarkupRules.Validation
