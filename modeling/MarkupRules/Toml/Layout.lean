/-
# Blanks, comments and line ends of settings

A line ends with a line feed, or with a carriage return and a line feed; a carriage return
alone is no line end. A comment runs to the end of its line.

Key definitions: `skipBlanks`, `takeNewline?`, `endLine`, `skipLayout`.
-/
import MarkupRules.Toml.Basic

namespace MarkupRules.Toml

/-- A blank within a line. -/
def isBlank (c : Char) : Bool :=
  c = ' ' || c = '\t'

/-- A character that may stand in a comment or a text: everything but control characters, and
the tab. -/
def isContent (c : Char) : Bool :=
  c = '\t' || (' ' ≤ c && c ≠ '\x7f')

/-- Drops the blanks in front. -/
def skipBlanks (cs : List Char) : List Char :=
  cs.dropWhile isBlank

/-- Drops a comment in front, up to the end of its line. -/
def skipComment : List Char → List Char
  | '#' :: rest => rest.dropWhile isContent
  | cs => cs

/-- The rest of a text that begins with a line end. -/
def takeNewline? : List Char → Option (List Char)
  | '\n' :: rest => some rest
  | '\r' :: '\n' :: rest => some rest
  | _ => none

/-- The text after the current line, which may hold only blanks and a comment from here. -/
def endLine (cs : List Char) : Except Fault (List Char) :=
  match skipComment (skipBlanks cs) with
  | [] => .ok []
  | rest =>
    match takeNewline? rest with
    | some rest => .ok rest
    | none => .error (.expected "the end of the line")

/-- Drops blanks and line ends. -/
def skipLines : List Char → List Char
  | [] => []
  | c :: rest =>
    if c = '\n' || isBlank c || (c = '\r' && rest.head? = some '\n') then skipLines rest
    else c :: rest

/-- Drops blanks, line ends and comments; `comment` tells that a comment has begun. -/
def skipLayout (comment : Bool) : List Char → List Char
  | [] => []
  | c :: rest =>
    if c = '\n' then skipLayout false rest
    else if c = '\r' && rest.head? = some '\n' then skipLayout comment rest
    else if comment then
      if isContent c then skipLayout true rest else c :: rest
    else if isBlank c then skipLayout false rest
    else if c = '#' then skipLayout true rest
    else c :: rest

end MarkupRules.Toml
