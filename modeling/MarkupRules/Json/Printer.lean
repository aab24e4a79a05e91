/-
# Printing JSON

`Json.pretty` writes a value over several lines, two spaces deeper for each level, and
`Json.compact` on one line without spaces. The members of a record keep the order given.

Key definitions: `Json.escape`, `Json.pretty`, `Json.compact`.
-/
import MarkupRules.Json.Basic
import MarkupRules.Decimal.Notation

namespace MarkupRules.Json

/-- One character inside a JSON text. -/
def escapeChar (c : Char) : List Char :=
  if c = '"' then ['\\', '"']
  else if c = '\\' then ['\\', '\\']
  else if c = '\n' then ['\\', 'n']
  else if c = '\r' then ['\\', 'r']
  else if c = '\t' then ['\\', 't']
  else if c = '\x08' then ['\\', 'b']
  else if c = '\x0c' then ['\\', 'f']
  else if c.toNat < 32 then
    let digits := Nat.toDigits 16 c.toNat
    ['\\', 'u'] ++ List.replicate (4 - digits.length) '0' ++ digits
  else [c]

/-- A text between quotes. -/
def escape (s : String) : String :=
  String.ofList ('"' :: s.toList.flatMap escapeChar ++ ['"'])

/-- A new line at the given depth. -/
def newline (depth : Nat) : String :=
  String.ofList ('\n' :: List.replicate (2 * depth) ' ')

/-- Parts on lines of their own between two brackets; nothing but the brackets without parts. -/
def block (depth : Nat) (opening closing : String) (parts : List String) : String :=
  if parts.isEmpty then opening ++ closing
  else
    opening ++ newline (depth + 1) ++ String.intercalate ("," ++ newline (depth + 1)) parts
      ++ newline depth ++ closing

mutual

/-- A value whose first line stands at the given depth. -/
def prettyAt (depth : Nat) : Json → String
  | .null => "null"
  | .bool b => if b then "true" else "false"
  | .whole n => toString n
  | .real x => Decimal.exact x
  | .text s => escape s
  | .list items => block depth "[" "]" (prettyItems (depth + 1) items)
  | .record members => block depth "\x7b" "\x7d" (prettyMembers (depth + 1) members)

/-- The items of a list, one text each. -/
def prettyItems (depth : Nat) : List Json → List String
  | [] => []
  | j :: rest => prettyAt depth j :: prettyItems depth rest

/-- The members of a record, one text each. -/
def prettyMembers (depth : Nat) : List (String × Json) → List String
  | [] => []
  | (name, j) :: rest => (escape name ++ ": " ++ prettyAt depth j) :: prettyMembers depth rest

end

/-- A value over several lines. -/
def pretty (j : Json) : String :=
  prettyAt 0 j

mutual

/-- A value on one line. -/
def compact : Json → String
  | .null => "null"
  | .bool b => if b then "true" else "false"
  | .whole n => toString n
  | .real x => Decimal.exact x
  | .text s => escape s
  | .list items => "[" ++ String.intercalate "," (compactItems items) ++ "]"
  | .record members => "\x7b" ++ String.intercalate "," (compactMembers members) ++ "\x7d"

/-- The items of a list, one text each. -/
def compactItems : List Json → List String
  | [] => []
  | j :: rest => compact j :: compactItems rest

/-- The members of a record, one text each. -/
def compactMembers : List (String × Json) → List String
  | [] => []
  | (name, j) :: rest => (escape name ++ ":" ++ compact j) :: compactMembers rest

end

end MarkupRules.Json
