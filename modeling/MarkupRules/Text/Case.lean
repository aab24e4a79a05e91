/-
# Changing the case of a text

The full mappings of every script: one character may become several (`ß` becomes `SS`), and a
capital sigma at the end of a word becomes the final form of the small one.

Key definitions: `upper`, `lower`.
-/
import MarkupRules.Text.CaseTable

namespace MarkupRules.Text

/-- The distance by which a code point moves, zero outside all runs. -/
def caseShift (runs : List CaseRun) (n : Nat) : Int :=
  match runs.find? fun r => r.lo ≤ n && n ≤ r.hi && (n - r.lo) % r.step == 0 with
  | some r => r.delta
  | none => 0

/-- The characters that one character becomes under a mapping given by its two tables. -/
def mapChar (runs : List CaseRun) (expansions : List (Nat × List Nat)) (c : Char) : List Char :=
  match expansions.find? fun e => e.1 == c.toNat with
  | some e => e.2.map Char.ofNat
  | none => [Char.ofNat (c.toNat + caseShift runs c.toNat).toNat]

/-- The upper-case form of one character. -/
def upperChar (c : Char) : List Char :=
  if c.toNat < 128 then [c.toUpper] else mapChar upperRuns upperExpansions c

/-- The lower-case form of one character, wherever it stands. -/
def lowerChar (c : Char) : List Char :=
  if c.toNat < 128 then [c.toLower] else mapChar lowerRuns lowerExpansions c

/-- Whether a character has the property `Cased`. -/
def isCased (c : Char) : Bool :=
  inRanges casedRanges c.toNat

/-- Whether a character is passed over when looking for a cased neighbour. -/
def isCaseIgnorable (c : Char) : Bool :=
  inRanges caseIgnorableRanges c.toNat

/-- Whether the first character that is not passed over is cased. -/
def startsCased (cs : List Char) : Bool :=
  match cs.dropWhile isCaseIgnorable with
  | c :: _ => isCased c
  | [] => false

/-- Lower case, where `before` holds the characters already read, last one first. -/
def lowerFrom : List Char → List Char → List Char
  | _, [] => []
  | before, c :: rest =>
    let here :=
      if c = 'Σ' then
        if startsCased before && !startsCased rest then ['ς'] else ['σ']
      else lowerChar c
    here ++ lowerFrom (c :: before) rest

/-- A text in upper case. -/
def upper (text : String) : String :=
  String.ofList (text.toList.flatMap upperChar)

/-- A text in lower case. -/
def lower (text : String) : String :=
  String.ofList (lowerFrom [] text.toList)

end MarkupRules.Text
