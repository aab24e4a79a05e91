/-
# The program

Reads the files below the working directory and those that arguments name elsewhere, runs the
command on them, and prints the outcome.

Key definitions: `readTree`, `readFiles`, `main`.
-/
import MarkupRules.CommandLine.Run

namespace MarkupRules.CommandLine

/-- Directories nested more deeply than this are taken to be empty. -/
def depthLimit : Nat := 64

/-- The names on the way from the root to a path. -/
def namesOf (path : String) : List String :=
  (Path.components path).filter (· ≠ "/")

/-- What is at a path, down to so many levels of directories; none if nothing can be read. -/
def readTree : (levels : Nat) → (path : String) → IO (Option Entry)
  | 0, _ => return some (.directory [])
  | levels + 1, path => do
    try
      let place ← IO.FS.realPath path
      if ← place.isDir then
        let mut entries : List (String × Entry) := []
        for found in ← place.readDir do
          if let some e ← readTree levels (Path.join path found.fileName) then
            entries := Entry.putEntry found.fileName e entries
        return some (.directory entries)
      else return some (.file (String.fromUTF8? (← IO.FS.readBinFile path)))
    catch _ => return none

/-- Puts what is at a path into a tree, at the place where the path really leads. -/
def addTree (root : Entry) (path : String) : IO Entry := do
  try
    let place ← IO.FS.realPath path
    match ← readTree depthLimit place.toString with
    | some e => return Entry.put e (namesOf place.toString) root
    | none => return root
  catch _ => return root

/-- The files below the working directory and those that arguments name. -/
def readFiles (arguments : List String) : IO Files := do
  let here ← IO.currentDir
  let root ← (here.toString :: arguments).foldlM addTree (.directory [])
  return ⟨root, namesOf here.toString⟩

end MarkupRules.CommandLine

/-- Runs a command; the exit code tells how it ended. -/
def main (arguments : List String) : IO UInt32 := do
  let files ← MarkupRules.CommandLine.readFiles arguments
  let outcome := MarkupRules.CommandLine.run files "schematron" arguments
  (← IO.getStdout).putStr outcome.stdout
  (← IO.getStderr).putStr outcome.stderr
  return outcome.code.toUInt32
