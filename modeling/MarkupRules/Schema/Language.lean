/-
# The query language of a schema

Key definitions: `dialectOf`, `dialectOfSchema`.
-/
import MarkupRules.Dialect
import MarkupRules.Markup.Document
import MarkupRules.SetupError

namespace MarkupRules.Schema

open Markup (Document)

/-- The token by which a schema names its query language; empty if it does not. -/
def languageToken (schema : Document) : String :=
  (schema.documentElement?.bind fun n => schema.attribute? n "queryBinding").getD ""

/-- The dialect that a token names. -/
def dialectOf (token : String) : Except SetupError Dialect :=
  match Dialect.ofBinding token with
  | .ok d => .ok d
  | .error t => .error (.unsupportedLanguage t)

/-- The dialect of a schema. -/
def dialectOfSchema (schema : Document) : Except SetupError Dialect :=
  dialectOf (languageToken schema)

end MarkupRules.Schema
