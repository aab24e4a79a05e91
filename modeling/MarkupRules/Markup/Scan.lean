/-
# Pieces of markup

Readers for the small pieces that all larger constructs are made of. Each takes the text that is
left and gives back what it read together with what is left then.

Key definitions: `takeName`, `takeQualified`, `takeUntil`, `takePair`, `takeReference`.
-/
import MarkupRules.Markup.Character
import MarkupRules.Markup.Fault
import MarkupRules.Text.Blank
import MarkupRules.Text.Search

namespace MarkupRules.Markup

/-- The text without leading spaces. -/
def skipSpace (cs : List Char) : List Char :=
  cs.dropWhile Text.isSpace

/-- Whether a text begins with a given one. -/
def begins (start : String) (cs : List Char) : Bool :=
  (Text.dropStart? start.toList cs).isSome

/-- What follows a text that has to stand first. -/
def expect (wanted : String) (cs : List Char) : Except Fault (List Char) :=
  match Text.dropStart? wanted.toList cs with
  | some rest => .ok rest
  | none => .error (.missing wanted)

/-- What follows one character that has to stand first. -/
def expectChar (wanted : Char) (cs : List Char) : Except Fault (List Char) :=
  match cs with
  | c :: rest => if c = wanted then .ok rest else .error (.misplaced c)
  | [] => .error .endOfText

/-- What follows at least one space. -/
def expectSpace (cs : List Char) : Except Fault (List Char) :=
  match cs with
  | c :: _ => if Text.isSpace c then .ok (skipSpace cs) else .error (.misplaced c)
  | [] => .error .endOfText

/-- A quote of either kind. -/
def takeQuote (cs : List Char) : Except Fault (Char × List Char) :=
  match cs with
  | c :: rest => if c = '"' ∨ c = '\'' then .ok (c, rest) else .error (.misplaced c)
  | [] => .error .endOfText

/-- A name; colons count as letters. -/
def takeName (cs : List Char) : Except Fault (List Char × List Char) :=
  match cs with
  | c :: rest =>
    if isNameStart c then .ok (c :: rest.takeWhile isNameChar, rest.dropWhile isNameChar)
    else .error .badName
  | [] => .error .badName

/-- A name as it is written: an optional label and a local part. -/
structure Qualified where
  /-- The label in front of the colon. -/
  label : Option String
  /-- The part behind it. -/
  localPart : String
  deriving DecidableEq, Repr

/-- The label and local part of a run of name characters. An empty label counts as none. -/
def splitQualified (run : List Char) : Except Fault Qualified :=
  let before := run.takeWhile (· ≠ ':')
  let (label, localPart) :=
    match run.dropWhile (· ≠ ':') with
    | _ :: behind => (before, behind)
    | [] => ([], run)
  let startsWell := match label with
    | c :: _ => isNameStart c
    | [] => true
  match localPart with
  | c :: _ =>
    if ':' ∈ localPart ∨ ¬ startsWell ∨ ¬ isNameStart c then .error .badName
    else
      .ok ⟨if label = [] then none else some (String.ofList label), String.ofList localPart⟩
  | [] => .error .badName

/-- A name with at most one colon. -/
def takeQualified (cs : List Char) : Except Fault (Qualified × List Char) :=
  (splitQualified (cs.takeWhile isNameChar)).map fun q => (q, cs.dropWhile isNameChar)

/-- The text up to a given one, which is left standing. All characters before it must be
allowed. -/
def takeUntil (stop : List Char) : List Char → Except Fault (List Char × List Char)
  | [] => .error .endOfText
  | c :: rest =>
    if (Text.dropStart? stop (c :: rest)).isSome then .ok ([], c :: rest)
    else if isMarkupChar c then
      (takeUntil stop rest).map fun p => (c :: p.1, p.2)
    else .error (.forbidden c)

/-- An equals sign with spaces around it. -/
def takeEquals (cs : List Char) : Except Fault (List Char) :=
  (expectChar '=' (skipSpace cs)).map skipSpace

/-- A quoted value up to its closing quote, without opening brackets. -/
def takeValue (cs : List Char) : Except Fault (List Char × List Char) := do
  let (quote, rest) ← takeQuote cs
  let value := rest.takeWhile fun c => c ≠ quote && c ≠ '<' && isMarkupChar c
  let rest ← expectChar quote (rest.drop value.length)
  .ok (value, rest)

/-- A name, an equals sign and a quoted value. -/
def takePair (cs : List Char) : Except Fault ((Qualified × List Char) × List Char) := do
  let (name, rest) ← takeQualified cs
  let rest ← takeEquals rest
  let (value, rest) ← takeValue rest
  .ok ((name, value), rest)

/-- What a reference stands for. -/
inductive Reference where
  /-- One character. -/
  | char (c : Char)
  /-- An entity to be looked up. -/
  | entity (name : List Char)
  deriving DecidableEq, Repr

/-- The entities that need no declaration. -/
def builtinEntity? (name : List Char) : Option Char :=
  if name = "quot".toList then some '"'
  else if name = "amp".toList then some '&'
  else if name = "apos".toList then some '\''
  else if name = "lt".toList then some '<'
  else if name = "gt".toList then some '>'
  else none

/-- The number written by digits of a base, if there are any and it fits 32 bits. -/
def codeOf? (base : Nat) (digits : List Char) : Option Nat :=
  let digit (c : Char) : Nat :=
    if c.isDigit then c.toNat - '0'.toNat else c.toLower.toNat - 'a'.toNat + 10
  let n := digits.foldl (fun n c => base * n + digit c) 0
  if digits.isEmpty || 4294967296 ≤ n then none else some n

/-- The character with a code; a code that is no character stands for the replacement
character. -/
def charOfCode (n : Nat) : Char :=
  if n.isValidChar then Char.ofNat n else '\uFFFD'

/-- Whether a character is a hexadecimal digit. -/
def isHexDigit (c : Char) : Bool :=
  c.isDigit || ('a' ≤ c && c ≤ 'f') || ('A' ≤ c && c ≤ 'F')

/-- A reference after its ampersand. -/
def takeReference (cs : List Char) : Except Fault (Reference × List Char) :=
  match cs with
  | '#' :: rest =>
    let (base, isDigit, rest) :=
      match rest with
      | 'x' :: rest => (16, isHexDigit, rest)
      | _ => (10, Char.isDigit, rest)
    match (codeOf? base (rest.takeWhile isDigit)).map charOfCode, rest.dropWhile isDigit with
    | some c, ';' :: rest =>
      if isMarkupChar c then .ok (.char c, rest) else .error .badReference
    | _, _ => .error .badReference
  | _ =>
    match takeName cs with
    | .ok (name, ';' :: rest) =>
      match builtinEntity? name with
      | some c => .ok (.char c, rest)
      | none => .ok (.entity name, rest)
    | _ => .error .badReference

/-- The text of a comment after its opening, and what follows the comment. -/
def takeComment (cs : List Char) : Except Fault (List Char × List Char) := do
  let (content, rest) ← takeUntil "-->".toList cs
  let rest ← expect "-->" rest
  if (Text.splitAtFirst? "--".toList content).isSome || content.getLast? = some '-' then
    .error .badComment
  else .ok (content, rest)

/-- The target and content of a processing instruction after its opening. Spaces between them
belong to neither. -/
def takeInstruction (cs : List Char) : Except Fault ((List Char × List Char) × List Char) := do
  if begins "xml " cs then .error .lateDeclaration
  else
    let (target, rest) ← takeName cs
    let (content, rest) ← takeUntil "?>".toList (skipSpace rest)
    let rest ← expect "?>" rest
    .ok ((target, content), rest)

end MarkupRules.Markup
