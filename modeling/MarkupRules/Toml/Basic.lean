/-
# Settings as values

A settings text names values by keys. A value is a text, a number, a truth value, a moment, a
list or a table; the keys of a table keep the order of the text.

Key definitions: `Toml`, `Toml.Fault`.
-/
import MarkupRules.Toml.Moment

namespace MarkupRules

/-- A value of a settings text. -/
inductive Toml where
  /-- A text. -/
  | text (value : String)
  /-- An integer of 64 bits with sign. -/
  | whole (value : Int)
  /-- A double. -/
  | real (value : Float)
  /-- A truth value. -/
  | bool (value : Bool)
  /-- A date, a time or both. -/
  | moment (value : Moment)
  /-- Values in order. -/
  | list (items : List Toml)
  /-- Values under keys. -/
  | table (entries : List (String × Toml))

namespace Toml

/-- Why a text is no settings text. -/
inductive Fault where
  /-- Something else has to stand here. -/
  | expected (what : String)
  /-- A quoted text does not end. -/
  | unclosed
  /-- A backslash is followed by what is no escape. -/
  | badEscape
  /-- A character must not stand in a text as it is. -/
  | badCharacter (code : Nat)
  /-- A bare word is no value. -/
  | badValue (word : String)
  /-- A key is given twice, or a finished table is extended. -/
  | duplicate (key : String)
  /-- Lists, tables or keys nest too deeply. -/
  | tooDeep
  deriving DecidableEq, Repr

/-- A fault in words. -/
def Fault.message : Fault → String
  | expected what => "expected " ++ what
  | unclosed => "a quoted text does not end"
  | badEscape => "invalid escape sequence"
  | badCharacter code => "invalid character with code " ++ toString code
  | badValue word => "invalid value '" ++ word ++ "'"
  | duplicate key => "duplicate key '" ++ key ++ "'"
  | tooDeep => "nested too deeply"

end Toml

end MarkupRules
