/-
# Parameter values

Options and validation parameters hold scalars: truth values, 64-bit integers, doubles and
texts. A scalar given as bare text is read leniently: what looks like a truth value or a number
is one.

Key definitions: `Scalar`, `Scalar.ofText`, `Scalar.ofJson?`, `Scalar.text`.
-/
import MarkupRules.Decimal.Notation
import MarkupRules.Decimal.Reader
import MarkupRules.Json.Reader

namespace MarkupRules

/-- A parameter value. -/
inductive Scalar where
  /-- A truth value. -/
  | bool (value : Bool)
  /-- An integer of 64 bits with sign. -/
  | int (value : Int)
  /-- A double. -/
  | real (value : Float)
  /-- A text. -/
  | text (value : String)

namespace Scalar

/-- The text of a value of type text. -/
def asText? : Scalar → Option String
  | .text s => some s
  | _ => none

/-- The integer of a value of type integer. -/
def asInt? : Scalar → Option Int
  | .int n => some n
  | _ => none

/-- The double of a number of either type. -/
def asReal? : Scalar → Option Float
  | .real x => some x
  | .int n => some (Decimal.ofInt n)
  | _ => none

/-- The truth value of a value of that type. -/
def asBool? : Scalar → Option Bool
  | .bool b => some b
  | _ => none

/-- How a value is shown. -/
def display : Scalar → String
  | .bool b => if b then "true" else "false"
  | .int n => toString n
  | .real x => Decimal.plain x
  | .text s => s

/-- The value that bare text stands for: `true` and `false`, an integer that fits 64 bits, a
number, and otherwise the text itself. -/
def ofText (raw : String) : Scalar :=
  if raw = "true" then .bool true
  else if raw = "false" then .bool false
  else
    match (Decimal.intOfText? raw).filter Json.fitsWhole with
    | some n => .int n
    | none =>
      match Decimal.ofText? raw with
      | some x => .real x
      | none => .text raw

/-- A JSON value that is a scalar. -/
def ofJson? : Json → Option Scalar
  | .bool b => some (.bool b)
  | .whole n => some (.int n)
  | .real x => some (.real x)
  | .text s => some (.text s)
  | _ => none

end Scalar

end MarkupRules
