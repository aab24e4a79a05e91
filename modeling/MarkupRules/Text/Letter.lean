/-
# Letters and digits

Names in expressions may use the letters and digits of every script.

Key definitions: `isLetter` (the property `Alphabetic`), `isNumeric` (the general categories
of numbers) and `isAlphanumeric`. For ASCII they are the usual letters and digits.
-/
import MarkupRules.Text.LetterTable

namespace MarkupRules.Text

/-- Whether a character has the property `Alphabetic`. -/
def isLetter (c : Char) : Bool :=
  if c.toNat < 128 then c.isAlpha else inRanges alphabeticRanges c.toNat

/-- Whether a character is a number of some script. -/
def isNumeric (c : Char) : Bool :=
  if c.toNat < 128 then c.isDigit else inRanges numericRanges c.toNat

/-- Whether a character is a letter or a number of some script. -/
def isAlphanumeric (c : Char) : Bool :=
  isLetter c || isNumeric c

end MarkupRules.Text
