/-
# What can be wrong with a text of markup

Key definitions: `Fault`, its causes, and `Fault.message`.
-/

namespace MarkupRules.Markup

/-- Why a text is not well-formed markup. -/
inductive Fault where
  /-- The text ends inside a construct. -/
  | endOfText
  /-- A character stands where the construct does not allow it. -/
  | misplaced (found : Char)
  /-- A character that no text of markup may hold. -/
  | forbidden (found : Char)
  /-- Something was required and is not there. -/
  | missing (wanted : String)
  /-- A name is empty, starts wrongly or has two colons. -/
  | badName
  /-- A declaration stands after the beginning of the text. -/
  | lateDeclaration
  /-- A comment holds two hyphens or ends in one. -/
  | badComment
  /-- Character data holds the end of a literal section. -/
  | badText
  /-- A reference is not of the right form, or stands for a forbidden character. -/
  | badReference
  /-- A reference to an entity that is not declared. -/
  | unknownEntity (name : String)
  /-- Entities are nested too deeply or too often. -/
  | entityLoop
  /-- An entity closes an element that it did not open. -/
  | strayEndTag
  /-- An end tag does not fit the open element. -/
  | wrongEndTag (written : String)
  /-- An attribute value contains an opening bracket. -/
  | badValue
  /-- A reserved label or namespace is declared or used. -/
  | reserved (name : String)
  /-- A label is declared twice on one element. -/
  | repeatedBinding (label : String)
  /-- A label is not declared. -/
  | unknownLabel (label : String)
  /-- An element has two attributes of one name. -/
  | repeatedAttribute (localPart : String)
  /-- There is no element. -/
  | noElement
  /-- The text ends before all elements are closed. -/
  | unclosedElement
  deriving DecidableEq, Repr

namespace Fault

/-- A fault in words. -/
def message : Fault → String
  | endOfText => "unexpected end of text"
  | misplaced c => "unexpected character " ++ toString c.toNat
  | forbidden c => "forbidden character " ++ toString c.toNat
  | missing wanted => "expected " ++ wanted
  | badName => "invalid name"
  | lateDeclaration => "the declaration must come first"
  | badComment => "two hyphens inside a comment"
  | badText => "end of a literal section in character data"
  | badReference => "malformed reference"
  | unknownEntity _ => "reference to an undeclared entity"
  | entityLoop => "entities are nested too deeply"
  | strayEndTag => "an entity closes an element it did not open"
  | wrongEndTag _ => "end tag without its start tag"
  | badValue => "opening bracket in an attribute value"
  | reserved _ => "use of a reserved label or namespace"
  | repeatedBinding _ => "a label is declared twice"
  | unknownLabel _ => "a label is not declared"
  | repeatedAttribute _ => "an attribute is given twice"
  | noElement => "there is no element"
  | unclosedElement => "an element is not closed"

end Fault

end MarkupRules.Markup
