/-
# Files

Schemas and documents are read from a tree of directories and files. A relative path starts at a
directory of its own, and a path is followed component by component, so that each way to fail
shows where the path breaks off.

Key definitions: `Entry`, `Files`, `Files.find`, `Files.readText`.
-/
import MarkupRules.Storage.Path

namespace MarkupRules

/-- Why a file cannot be read. -/
inductive FileFault where
  /-- There is no entry of that name. -/
  | notFound
  /-- A component that should be a directory is a file. -/
  | notDirectory
  /-- The path leads to a directory where a file is wanted. -/
  | isDirectory
  /-- The path or one of its components is too long. -/
  | nameTooLong
  /-- The bytes of the file are no text. -/
  | notText
  /-- The path holds a character that no path can hold. -/
  | badPath
  deriving DecidableEq, Repr

/-- A fault in words. -/
def FileFault.message : FileFault → String
  | notFound => "No such file or directory (os error 2)"
  | notDirectory => "Not a directory (os error 20)"
  | isDirectory => "Is a directory (os error 21)"
  | nameTooLong => "File name too long (os error 36)"
  | notText => "stream did not contain valid UTF-8"
  | badPath => "file name contained an unexpected NUL byte"

/-- A file or directory. -/
inductive Entry where
  /-- A file with its text; none if its bytes are no text. -/
  | file (text : Option String)
  /-- A directory with its entries in order of their names. -/
  | directory (entries : List (String × Entry))

instance : Inhabited Entry := ⟨.directory []⟩

namespace Entry

/-- The entries of a directory; none for a file. -/
def entries : Entry → List (String × Entry)
  | directory es => es
  | file _ => []

/-- Whether an entry is a directory. -/
def isDirectory : Entry → Bool
  | directory _ => true
  | file _ => false

/-- The entry of a name in a directory. -/
def child? (e : Entry) (name : String) : Option Entry :=
  (e.entries.find? fun c => c.1 = name).map Prod.snd

/-- The entries of a directory with one put under a name, in order of their names. -/
def putEntry (name : String) (e : Entry) : List (String × Entry) → List (String × Entry)
  | [] => [(name, e)]
  | c :: rest =>
    if c.1 = name then (name, e) :: rest
    else if name < c.1 then (name, e) :: c :: rest
    else c :: putEntry name e rest

/-- Puts an entry at a path below a directory, making the directories on the way. A directory
that is already there keeps its entries. -/
def put (new : Entry) : List String → Entry → Entry
  | [], old =>
    match new, old with
    | directory [], directory es => directory es
    | _, _ => new
  | name :: rest, old =>
    directory (putEntry name (put new rest ((old.child? name).getD (directory []))) old.entries)

mutual

/-- The texts of all files. -/
def texts : Entry → List String
  | file text => text.toList
  | directory es => textsOfAll es

/-- The texts of the files of several entries. -/
def textsOfAll : List (String × Entry) → List String
  | [] => []
  | (_, e) :: rest => texts e ++ textsOfAll rest

end

end Entry

/-- All files, and the directory where relative paths start. -/
structure Files where
  /-- The root directory. -/
  root : Entry
  /-- The names on the way from the root to the working directory. -/
  here : List String

namespace Files

/-- The greatest number of bytes of a path. -/
def pathLimit : Nat := 4095

/-- A number that there are at most paths: texts of at most that many characters, each of them one
of all code points or none. -/
def pathCount : Nat := Nat.pow (0x110000 + 1) pathLimit

/-- The greatest number of bytes of a component. -/
def nameLimit : Nat := 255

/-- Follows one component from the directory at the head of a chain of directories. -/
def follow (chain : List Entry) (name : String) : Except FileFault (List Entry) :=
  match chain with
  | [] => .error .notFound
  | .file _ :: _ => .error .notDirectory
  | e :: above =>
    if name = "" ∨ name = "." then .ok chain
    else if name = ".." then .ok (if above.isEmpty then chain else above)
    else if nameLimit < name.utf8ByteSize then .error .nameTooLong
    else
      match e.child? name with
      | some c => .ok (c :: chain)
      | none => .error .notFound

/-- Follows components one after the other. -/
def followAll : List Entry → List String → Except FileFault (List Entry)
  | chain, [] => .ok chain
  | chain, name :: rest => do
    let chain ← follow chain name
    followAll chain rest

/-- The entry that a path leads to. -/
def find (fs : Files) (path : String) : Except FileFault Entry := do
  if path = "" then .error .notFound
  else if path.toList.contains (Char.ofNat 0) then .error .badPath
  else if pathLimit < path.utf8ByteSize then .error .nameTooLong
  else
    let start ← if Path.isAbsolute path then .ok [fs.root] else followAll [fs.root] fs.here
    let chain ← followAll start ((Path.splitOn '/' path.toList).map String.ofList)
    match chain with
    | e :: _ => .ok e
    | [] => .error .notFound

/-- The text of the file that a path leads to. -/
def readText (fs : Files) (path : String) : Except FileFault String := do
  let e ← fs.find path
  match e with
  | .file (some text) => .ok text
  | .file none => .error .notText
  | .directory _ => .error .isDirectory

/-- Whether a path leads anywhere. -/
def exists? (fs : Files) (path : String) : Bool :=
  match fs.find path with
  | .ok _ => true
  | .error _ => false

/-- Whether a path leads to a directory. -/
def isDirectory (fs : Files) (path : String) : Bool :=
  match fs.find path with
  | .ok e => e.isDirectory
  | .error _ => false

/-- Whether a path leads to a file. -/
def isFile (fs : Files) (path : String) : Bool :=
  match fs.find path with
  | .ok e => !e.isDirectory
  | .error _ => false

end Files

end MarkupRules
