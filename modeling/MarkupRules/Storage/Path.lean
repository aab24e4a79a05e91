/-
# File paths and locators

A path is text with components between slashes. Empty components and inner `.` components carry
no meaning, except that a leading `.` is a component of its own. A locator is a path that may be
written with a `file:` scheme; references are resolved against the directory of the locator of
the document that holds them.

Key definitions: `pieces`, `parent?`, `join`, `resolve`.
-/
import MarkupRules.Text.Search

namespace MarkupRules.Path

/-- The pieces of a text between the occurrences of a separator. -/
def splitOn (separator : Char) : List Char → List (List Char)
  | [] => [[]]
  | c :: rest =>
    if c = separator then [] :: splitOn separator rest
    else
      match splitOn separator rest with
      | piece :: more => (c :: piece) :: more
      | [] => [[c]]

/-- Pieces put together again with a separator. -/
def joinWith (separator : Char) : List (List Char) → List Char
  | [] => []
  | [piece] => piece
  | piece :: more => piece ++ separator :: joinWith separator more

/-- Whether a piece carries no meaning inside a path. -/
def isVoid (piece : List Char) : Bool :=
  piece = [] || piece = ['.']

/-- Whether a path starts at the root. -/
def isAbsolute (path : String) : Bool :=
  path.toList.head? == some '/'

/-- The start of a path that belongs to no later component (the root or a leading `.`), and the
rest. -/
def anchor (path : List Char) : List Char × List Char :=
  match path with
  | '/' :: rest => (['/'], rest)
  | ['.'] => (['.'], [])
  | '.' :: '/' :: rest => (['.'], '/' :: rest)
  | _ => ([], path)

/-- The path without its last component; none for the empty path and the root. -/
def parent? (path : String) : Option String :=
  let (start, body) := anchor path.toList
  match (splitOn '/' body).reverse.dropWhile isVoid with
  | _ :: above =>
    some (String.ofList (start ++ joinWith '/' (above.dropWhile isVoid).reverse))
  | [] => if start = ['.'] then some "" else none

/-- The components of a path: a leading `.`, and every other piece that carries meaning. -/
def components (path : String) : List String :=
  let (start, body) := anchor path.toList
  (if start = [] then [] else [String.ofList start])
    ++ ((splitOn '/' body).filter fun p => !isVoid p).map String.ofList

/-- `target` below `directory`; an absolute target stands for itself. -/
def join (directory target : String) : String :=
  if isAbsolute target then target
  else if directory = "" ∨ directory.toList.getLast? = some '/' then directory ++ target
  else directory ++ "/" ++ target

/-- A locator without its scheme. -/
def stripScheme (locator : String) : String :=
  match Text.stripStart? "file://" locator with
  | some path => path
  | none => (Text.stripStart? "file:" locator).getD locator

/-- The path that `reference` names in a document with the given locator. -/
def resolve (base : Option String) (reference : String) : String :=
  let target := stripScheme reference
  if isAbsolute target then target
  else
    match base.bind fun b => parent? (stripScheme b) with
    | some directory => join directory target
    | none => target

end MarkupRules.Path
