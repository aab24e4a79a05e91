/-
# Blank characters and words

Two notions of blank occur: the four characters that separate tokens of markup and of
expressions (`isSpace`), and the characters with the property `White_Space` of any script
(`isBlank`), which separate the words of a text. `words` splits a text into its words and
`collapse` joins them again with single spaces.

Key definitions: `isSpace`, `isBlank`, `words`, `collapse`, `trimSpace`.
-/
import MarkupRules.Text.Ranges

namespace MarkupRules.Text

/-- Space, tab, carriage return and line feed. -/
def isSpace (c : Char) : Bool :=
  c = ' ' || c = '\t' || c = '\r' || c = '\n'

/-- The code points with the property `White_Space`. -/
def blankRanges : List (Nat × Nat) := [
  (9, 13), (32, 32), (133, 133), (160, 160), (5760, 5760), (8192, 8202), (8232, 8233),
  (8239, 8239), (8287, 8287), (12288, 12288)]

/-- Whether a character has the property `White_Space`. -/
def isBlank (c : Char) : Bool :=
  inRanges blankRanges c.toNat

/-- The words of a text together with the word `acc` (reversed) that is being read. -/
def wordsFrom : List Char → List Char → List (List Char)
  | acc, [] => if acc.isEmpty then [] else [acc.reverse]
  | acc, c :: rest =>
    if isBlank c then
      if acc.isEmpty then wordsFrom [] rest else acc.reverse :: wordsFrom [] rest
    else wordsFrom (c :: acc) rest

/-- The maximal runs of characters that are not blank, in order. -/
def words (text : String) : List String :=
  (wordsFrom [] text.toList).map String.ofList

/-- The words of a text, separated by single spaces. -/
def collapse (text : String) : String :=
  String.intercalate " " (words text)

/-- A text without the characters satisfying `p` at its two ends. -/
def trimWhere (p : Char → Bool) (text : String) : String :=
  String.ofList ((text.toList.dropWhile p).reverse.dropWhile p).reverse

/-- A text without the markup spaces at its two ends. -/
def trimSpace (text : String) : String :=
  trimWhere isSpace text

end MarkupRules.Text
