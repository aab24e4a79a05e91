/-
# Parameter references in text

A reference is a dollar sign with the longest run of name characters behind it, which may be
empty. A text is taken apart into references and other characters once, and every reference is
then replaced on its own, so that what is put in is not looked at again.

Key definitions: `Piece`, `pieces`, `substitute`.
-/
import MarkupRules.Text.Letter

namespace MarkupRules.Schema

/-- Whether a character belongs to the name in a reference. -/
def isReferenceChar (c : Char) : Bool :=
  Text.isAlphanumeric c || c = '_' || c = '-' || c = '.'

/-- A part of a text that refers to parameters. -/
inductive Piece where
  /-- A character outside references. -/
  | plain (c : Char)
  /-- A reference to a parameter. -/
  | reference (name : List Char)
  deriving DecidableEq, Repr

/-- The pieces of a text, where `pending` is the name (reversed) of a reference that is being
read, if one is. -/
def piecesFrom : (pending : Option (List Char)) → List Char → List Piece
  | none, [] => []
  | some name, [] => [.reference name.reverse]
  | none, c :: rest =>
    if c = '$' then piecesFrom (some []) rest else .plain c :: piecesFrom none rest
  | some name, c :: rest =>
    if isReferenceChar c then piecesFrom (some (c :: name)) rest
    else
      .reference name.reverse ::
        if c = '$' then piecesFrom (some []) rest else .plain c :: piecesFrom none rest

/-- The references and other characters of a text in order. -/
def pieces (text : List Char) : List Piece :=
  piecesFrom none text

/-- What stands for a piece: for a reference the value of the first parameter of that name, and
the reference as written if there is none. -/
def Piece.fill (parameters : List (String × String)) : Piece → List Char
  | plain c => [c]
  | reference name =>
    match parameters.find? fun p => p.1.toList = name with
    | some p => p.2.toList
    | none => '$' :: name

/-- A text with its references to parameters replaced. -/
def substitute (parameters : List (String × String)) (text : String) : String :=
  String.ofList ((pieces text.toList).flatMap (Piece.fill parameters))

end MarkupRules.Schema
