/-
# Finding files

A directory is searched below, each directory before what it holds and names in ascending order.
A path pattern is followed component by component: a component that describes only itself names
an entry, any other one is compared with the names in a directory, and two asterisks reach every
directory below. A component that begins with a point may also describe the directory itself or
the one above it.

Key definitions: `Found`, `Entry.descendants`, `PathPattern`, `PathPattern.ofText`,
`PathPattern.files`.
-/
import MarkupRules.Storage.Files
import MarkupRules.Storage.Wildcard

namespace MarkupRules

/-- An entry met in a search. -/
structure Found where
  /-- The path that leads to it. -/
  path : String
  /-- Its name in its directory. -/
  name : String
  /-- Whether it is a directory. -/
  isDirectory : Bool
  deriving DecidableEq, Repr

namespace Entry

mutual

/-- Everything below an entry, where `child` makes the path of a name in a directory. -/
def descendants (child : String → String → String) (path : String) : Entry → List Found
  | .file _ => []
  | .directory es => descendantsOfAll child path es

/-- Several entries of a directory and everything below them. -/
def descendantsOfAll (child : String → String → String) (path : String) :
    List (String × Entry) → List Found
  | [] => []
  | (name, e) :: rest =>
    ⟨child path name, name, e.isDirectory⟩
      :: (descendants child (child path name) e ++ descendantsOfAll child path rest)

end

/-- The entries of a directory without what is below them. -/
def children (child : String → String → String) (path : String) (e : Entry) : List Found :=
  e.entries.map fun c => ⟨child path c.1, c.1, c.2.isDirectory⟩

end Entry

/-- A pattern for paths: where the search begins, and a pattern for each component. -/
structure PathPattern where
  /-- The directory where the search begins. -/
  start : String
  /-- The patterns of the components. -/
  components : List Wildcard
  /-- Whether only directories are described. -/
  directoriesOnly : Bool
  deriving DecidableEq, Repr

namespace PathPattern

/-- The path of an entry in a directory; in the working directory its name alone. -/
def childPath (directory name : String) : String :=
  if Path.components directory = ["."] then name else Path.join directory name

/-- Drops runs of two asterisks that follow each other but for one. -/
def collapse : List Wildcard → List Wildcard
  | [] => []
  | w :: rest =>
    match collapse rest with
    | [] => [w]
    | v :: more => if w.isDirectories && v.isDirectories then v :: more else w :: v :: more

/-- The components of a path pattern. A slash at the end begins no component. -/
def splitComponents (text : String) : List String :=
  let pieces := Path.splitOn '/' text.toList
  (if pieces.getLast? = some [] then pieces.dropLast else pieces).map String.ofList

/-- The path pattern that a text writes. The text has to be a pattern as a whole, and each of its
components has to be one. -/
def ofText (text : String) : Except WildcardError PathPattern := do
  let _ ← Wildcard.ofText text
  let absolute := Path.isAbsolute text
  let body := if absolute then String.ofList (text.toList.drop 1) else text
  let components ← (splitComponents body).mapM Wildcard.ofText
  .ok ⟨if absolute then "/" else ".", collapse components, text.toList.getLast? = some '/'⟩

/-- The entry that a path leads to, if it is a directory. -/
def directory? (fs : Files) (path : String) : Option Entry :=
  match fs.find path with
  | .ok (.directory es) => some (.directory es)
  | _ => none

/-- The path of an entry with a fixed name, if there is one. -/
def step? (fs : Files) (path name : String) : Option String :=
  let next := if Path.components path = ["."] then name else Path.join path name
  let there :=
    if name = "." || name = ".." then fs.isDirectory path else fs.exists? next
  if there then some next else none

/-- The paths that lead out of a directory by a pattern that begins with a point and describes
the directory itself or the one above it. -/
def pointSteps (w : Wildcard) (path : String) : List String :=
  if w.startsWithPoint then ([".", ".."].filter w.accepts).map (Path.join path) else []

/-- The paths that a component describes in a directory, two asterisks apart. -/
def steps (fs : Files) (w : Wildcard) (path : String) : List String :=
  match w.literal?, directory? fs path with
  | some name, _ => (step? fs path name).toList
  | none, some e =>
    (pointSteps w path).reverse
      ++ ((e.children childPath path).filter fun c => w.accepts c.name).map Found.path
  | none, none => []

/-- Everything below the directory that a path leads to. -/
def everythingBelow (fs : Files) (path : String) : List Found :=
  ((directory? fs path).map (Entry.descendants childPath path)).getD []

/-- The paths below `path` that components describe. -/
def pathsFrom (fs : Files) : List Wildcard → String → List String
  | [], path => [path]
  | w :: rest, path =>
    if w.isDirectories then
      match rest with
      | [] => ((everythingBelow fs path).filter Found.isDirectory).map Found.path
      | next :: rest =>
        ((everythingBelow fs path).filter fun c => next.accepts c.name).flatMap fun c =>
          pathsFrom fs rest c.path
    else (steps fs w path).flatMap (pathsFrom fs rest)

/-- The files that a path pattern describes. -/
def files (p : PathPattern) (fs : Files) : List String :=
  if p.directoriesOnly then [] else (pathsFrom fs p.components p.start).filter fs.isFile

end PathPattern

end MarkupRules
