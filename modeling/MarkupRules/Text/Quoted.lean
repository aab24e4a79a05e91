/-
# Quoted text

How a text is shown inside double quotes: the quote, the backslash and the usual controls have
short escapes, and every character without a visible form of its own is written by its code
point in hexadecimal. An apostrophe is written as it is.

Key definitions: `quoteChar`, `quote`.
-/
import MarkupRules.Text.PrintableTable

namespace MarkupRules.Text

/-- Whether a character has no visible form of its own. -/
def isHidden (c : Char) : Bool :=
  if c.toNat < 128 then c.toNat < 32 || c.toNat == 127
  else inRanges extendingMarkRanges c.toNat || inRanges unprintableRanges c.toNat
    || inRanges ignorableRanges c.toNat

/-- One character of a quoted text. -/
def quoteChar (c : Char) : List Char :=
  if c = '"' then ['\\', '"']
  else if c = '\\' then ['\\', '\\']
  else if c = '\n' then ['\\', 'n']
  else if c = '\r' then ['\\', 'r']
  else if c = '\t' then ['\\', 't']
  else if c.toNat = 0 then ['\\', '0']
  else if isHidden c then
    ['\\', 'u', '\x7b'] ++ Nat.toDigits 16 c.toNat ++ ['\x7d']
  else [c]

/-- A text between double quotes, with escapes. -/
def quote (text : String) : String :=
  String.ofList ('"' :: text.toList.flatMap quoteChar ++ ['"'])

end MarkupRules.Text
