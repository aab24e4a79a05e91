/-
# Character classes of markup

Key definitions: `isMarkupChar` (what a text may hold at all), `isNameStart`, `isNameChar`.
-/
import MarkupRules.Text.Ranges

namespace MarkupRules.Markup

/-- Whether a character may occur in a text of markup: no control but tab, line feed and
carriage return, and not the two code points that are never characters. -/
def isMarkupChar (c : Char) : Bool :=
  if c.toNat < 32 then c = '\t' || c = '\n' || c = '\r'
  else c.toNat ≠ 0xFFFE && c.toNat ≠ 0xFFFF

/-- The code points beyond ASCII that may start a name. -/
def nameStartRanges : List (Nat × Nat) := [
  (0xC0, 0xD6), (0xD8, 0xF6), (0xF8, 0x2FF), (0x370, 0x37D), (0x37F, 0x1FFF), (0x200C, 0x200D),
  (0x2070, 0x218F), (0x2C00, 0x2FEF), (0x3001, 0xD7FF), (0xF900, 0xFDCF), (0xFDF0, 0xFFFD),
  (0x10000, 0xEFFFF)]

/-- The code points beyond ASCII that may only continue a name. -/
def nameExtraRanges : List (Nat × Nat) := [(0xB7, 0xB7), (0x300, 0x36F), (0x203F, 0x2040)]

/-- Whether a name may start with a character. -/
def isNameStart (c : Char) : Bool :=
  c.isAlpha || c = ':' || c = '_' || Text.inRanges nameStartRanges c.toNat

/-- Whether a name may hold a character. -/
def isNameChar (c : Char) : Bool :=
  isNameStart c || c.isDigit || c = '-' || c = '.' || Text.inRanges nameExtraRanges c.toNat

end MarkupRules.Markup
