/-
# Which documents to validate

Documents are named by inputs. A directory stands for the files below it whose names fit a
pattern; a path that leads somewhere, or that has no pattern characters in it, stands for itself;
every other input is a pattern for paths. The documents come in the order of the inputs.

Key definitions: `Discovery`, `Discovery.withPattern`, `Discovery.paths`, `Discovery.sources`.
-/
import MarkupRules.SetupError
import MarkupRules.Source
import MarkupRules.Storage.Search

namespace MarkupRules

/-- How the files of a directory are chosen. -/
structure Discovery where
  /-- The pattern that their names fit. -/
  pattern : Wildcard
  /-- Whether directories are searched below their top level. -/
  recursive : Bool

namespace Discovery

/-- All files below a directory whose names end in `.xml`. -/
def standard : Discovery :=
  ⟨⟨[.sequence, .char '.', .char 'x', .char 'm', .char 'l']⟩, true⟩

/-- What is reported about a pattern that cannot be read. -/
def patternError (text : String) (e : WildcardError) : SetupError :=
  .invalid ("Invalid pattern '" ++ text ++ "': " ++ e.message)

/-- Chooses files by another pattern. -/
def withPattern (d : Discovery) (text : String) : Except SetupError Discovery :=
  match Wildcard.ofText text with
  | .ok w => .ok { d with pattern := w }
  | .error e => .error (patternError text e)

/-- Whether an input has characters of a pattern in it. -/
def isPattern (input : String) : Bool :=
  input.toList.any fun c => c = '*' || c = '?' || c = '['

/-- The files of a directory that fit the pattern, in order of their paths. -/
def walk (d : Discovery) (directory : String) (e : Entry) : List String :=
  let found :=
    if d.recursive then e.descendants Path.join directory else e.children Path.join directory
  (found.filter fun f => !f.isDirectory && d.pattern.accepts f.name).map Found.path

/-- The paths that an input stands for. -/
def pathsOf (d : Discovery) (files : Files) (input : String) :
    Except SetupError (List String) :=
  match files.find input with
  | .ok (.directory es) => .ok (d.walk input (.directory es))
  | .ok (.file _) => .ok [input]
  | .error _ =>
    if isPattern input then
      match PathPattern.ofText input with
      | .ok p => .ok (p.files files)
      | .error e => .error (patternError input e)
    else .ok [input]

/-- The paths that inputs stand for, in their order. -/
def paths (d : Discovery) (files : Files) (inputs : List String) :
    Except SetupError (List String) :=
  (inputs.mapM (d.pathsOf files)).map List.flatten

/-- The documents that inputs stand for. -/
def sources (d : Discovery) (files : Files) (inputs : List String) :
    Except SetupError (List Source) :=
  (d.paths files inputs).map fun ps => ps.map Source.ofPath

end Discovery

end MarkupRules
