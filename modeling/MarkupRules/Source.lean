/-
# Where documents come from

A document to be loaded is given as text, as a file or as a document already built. It may carry
an identifier, which becomes the locator of the loaded document.

Key definitions: `LoadError`, `Source`, `Source.load`.
-/
import MarkupRules.Markup.Reader
import MarkupRules.Storage.Files

namespace MarkupRules

open Markup (Document Fault)

/-- Why a document cannot be loaded. -/
inductive LoadError where
  /-- The file cannot be read. -/
  | unreadable (path : String) (fault : FileFault)
  /-- The text is not well-formed. -/
  | malformed (origin : Option String) (fault : Fault)

namespace LoadError

/-- An error in words. -/
def message : LoadError → String
  | unreadable path fault => "Failed to read " ++ path ++ ": " ++ fault.message
  | malformed (some origin) fault => "Malformed XML in " ++ origin ++ ": " ++ fault.message
  | malformed none fault => "Malformed XML: " ++ fault.message

/-- The texts of an error and of the errors that caused it, outermost first. -/
def causes (e : LoadError) : List String :=
  match e with
  | unreadable _ fault => [e.message, fault.message]
  | malformed _ _ => [e.message]

end LoadError

/-- What a document is loaded from. -/
inductive Origin where
  /-- Text. -/
  | text (content : String)
  /-- A file. -/
  | file (path : String)
  /-- A document. -/
  | document (d : Document)

/-- A document to be loaded, with its identifier. -/
structure Source where
  /-- What it is loaded from. -/
  content : Origin
  /-- The identifier. -/
  systemId : Option String

namespace Source

/-- A file, identified by its path. -/
def ofPath (path : String) : Source :=
  ⟨.file path, some path⟩

/-- Text without an identifier. -/
def ofText (content : String) : Source :=
  ⟨.text content, none⟩

/-- A document, identified by its locator. -/
def ofDocument (d : Document) : Source :=
  ⟨.document d, d.origin⟩

/-- The source with another identifier. -/
def withSystemId (s : Source) (id : String) : Source :=
  { s with systemId := some id }

/-- The document of a text. -/
def readText (content : String) (origin : Option String) : Except LoadError Document :=
  match Document.read content origin with
  | .ok d => .ok d
  | .error fault => .error (.malformed origin fault)

/-- The document of a source; its locator is the identifier of the source. -/
def load (s : Source) (files : Files) : Except LoadError Document :=
  match s.content with
  | .text content => readText content s.systemId
  | .file path =>
    match files.readText path with
    | .ok content => readText content s.systemId
    | .error fault => .error (.unreadable path fault)
  | .document d => .ok (d.withOrigin s.systemId)

end Source

end MarkupRules
