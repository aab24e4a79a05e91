/-
# Dialects of the query language

Schemas name the language of their expressions. Two dialects are understood; they differ in the
functions that may be called.

Key definitions: `Dialect`, `Dialect.ofBinding`, `Dialect.token`.
-/
import MarkupRules.Text.Case

namespace MarkupRules

/-- The dialect of the expressions of a schema. -/
inductive Dialect where
  /-- The core functions only. -/
  | legacy
  /-- The core functions and a few later ones. -/
  | modern
  deriving DecidableEq, Repr

namespace Dialect

/-- The token by which a schema names a dialect. -/
def token : Dialect → String
  | legacy => "xslt"
  | modern => "xslt2"

/-- The name of a dialect. -/
def label : Dialect → String
  | legacy => "Legacy"
  | modern => "Modern"

/-- The dialect named by a token, in any case; the token in lower case if there is none. An
empty token names the legacy dialect. -/
def ofBinding (binding : String) : Except String Dialect :=
  let t := Text.lower binding
  if t = "" ∨ t = "xslt" then .ok legacy
  else if t = "xslt2" ∨ t = "xslt3" then .ok modern
  else .error t

/-- The version in the identifiers of the stages of a dialect. -/
def stageVersion : Dialect → String
  | legacy => "1.0"
  | modern => "2.0"

/-- The identifiers of the stages of a dialect in order. -/
def stageIds (d : Dialect) : List String :=
  ["include", "expand", "compile"].map fun s =>
    "urn:schematron:pipeline:" ++ d.stageVersion ++ ":" ++ s

end Dialect

end MarkupRules
