/-
# JSON values

A JSON value keeps whole numbers apart from all others, since the two are different kinds of
parameter values.

Key definitions: `Json`, `Json.member?`.
-/

namespace MarkupRules

/-- A JSON value. -/
inductive Json where
  /-- No value. -/
  | null
  /-- A truth value. -/
  | bool (value : Bool)
  /-- A number without fraction and exponent that fits 64 bits with sign. -/
  | whole (value : Int)
  /-- Any other number. -/
  | real (value : Float)
  /-- A text. -/
  | text (value : String)
  /-- A list of values. -/
  | list (items : List Json)
  /-- Named values in the order written. -/
  | record (members : List (String × Json))

instance : Inhabited Json := ⟨.null⟩

namespace Json

/-- The last member of a record with the given name. -/
def member? (j : Json) (name : String) : Option Json :=
  match j with
  | .record members => (members.reverse.find? fun m => m.1 == name).map Prod.snd
  | _ => none

/-- Whether an integer fits 64 bits with sign. -/
def fitsWhole (n : Int) : Bool :=
  -9223372036854775808 ≤ n && n ≤ 9223372036854775807

end Json

end MarkupRules
