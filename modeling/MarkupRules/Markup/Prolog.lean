/-
# What stands before and after the element of a document

A text of markup may begin with a declaration and a document type. Of the document type only
the entities with a literal value are kept, and the comments and processing instructions inside
it, which count as content of the document node. Declarations of elements, attributes and
notations are skipped.

Key definitions: `Entity`, `takeDeclaration`, `takeMisc`, `takeDoctype`, `takeProlog`.
-/
import MarkupRules.Markup.Edit
import MarkupRules.Markup.Scan

namespace MarkupRules.Markup

/-- A declared entity with its literal value. -/
structure Entity where
  /-- The name. -/
  name : List Char
  /-- The value as written. -/
  value : List Char
  deriving DecidableEq, Repr

/-- The value of an entity: the first declaration of a name counts. -/
def entityValue? (entities : List Entity) (name : List Char) : Option (List Char) :=
  (entities.find? fun e => e.name = name).map Entity.value

/-- Spaces that may be left out before the end of a declaration. -/
def spaceInDeclaration (cs : List Char) : Except Fault (List Char) :=
  if begins "?>" cs || cs.isEmpty then .ok cs else expectSpace cs

/-- The text after the opening of a declaration and its attributes: a version, and optionally an
encoding and whether the text stands alone. -/
def takeDeclaration (cs : List Char) : Except Fault (List Char) := do
  let cs ← spaceInDeclaration cs
  if !begins "version" cs then .error (.missing "version")
  else
    let (_, cs) ← takePair cs
    let cs ← spaceInDeclaration cs
    let cs ←
      if begins "encoding" cs then do
        let (_, cs) ← takePair cs
        spaceInDeclaration cs
      else .ok cs
    let cs ← if begins "standalone" cs then (takePair cs).map Prod.snd else .ok cs
    expect "?>" (skipSpace cs)

/-- Comments and processing instructions, with spaces between them, below the document node. -/
def takeMisc : Nat → Document → List Char → Except Fault (Document × List Char)
  | 0, d, cs => .ok (d, cs)
  | fuel + 1, d, cs =>
    match skipSpace cs with
    | '<' :: '!' :: '-' :: '-' :: rest => do
      let (content, rest) ← takeComment rest
      takeMisc fuel (d.appendComment Document.root (String.ofList content)).1 rest
    | '<' :: '?' :: rest => do
      let ((target, content), rest) ← takeInstruction rest
      let node := Payload.instruction (String.ofList target) (String.ofList content)
      takeMisc fuel (d.push Document.root node).1 rest
    | rest => .ok (d, rest)

/-- A quoted text of any characters. -/
def takeQuoted (cs : List Char) : Except Fault (List Char × List Char) := do
  let (quote, rest) ← takeQuote cs
  let value := rest.takeWhile (· ≠ quote)
  let rest ← expectChar quote (rest.drop value.length)
  .ok (value, rest)

/-- An optional reference to a text elsewhere; says whether there is one. -/
def takeExternal (cs : List Char) : Except Fault (Bool × List Char) :=
  if begins "SYSTEM" cs then do
    let rest ← expectSpace (cs.drop 6)
    let (_, rest) ← takeQuoted rest
    .ok (true, rest)
  else if begins "PUBLIC" cs then do
    let rest ← expectSpace (cs.drop 6)
    let (_, rest) ← takeQuoted rest
    let rest ← expectSpace rest
    let (_, rest) ← takeQuoted rest
    .ok (true, rest)
  else .ok (false, cs)

/-- The remark that an entity outside the text holds other data. -/
def skipUnparsed (cs : List Char) : Except Fault (List Char) :=
  let cs := skipSpace cs
  if begins "NDATA" cs then do
    let rest ← expectSpace (cs.drop 5)
    match rest with
    | [] => .ok []
    | _ => (takeName rest).map Prod.snd
  else .ok cs

/-- The literal value of an entity, none if its text is elsewhere. -/
def takeDefinition (general : Bool) (cs : List Char) :
    Except Fault (Option (List Char) × List Char) :=
  match cs with
  | [] => .error .endOfText
  | c :: _ =>
    if c = '"' ∨ c = '\'' then (takeQuoted cs).map fun p => (some p.1, p.2)
    else do
      let (found, rest) ← takeExternal cs
      if !found then .error (.misplaced c)
      else if general then (skipUnparsed rest).map fun rest => (none, rest)
      else .ok (none, rest)

/-- A declaration of an entity after its opening. -/
def takeEntity (cs : List Char) : Except Fault (Option Entity × List Char) := do
  let cs ← expectSpace cs
  let (general, cs) ←
    match cs with
    | '%' :: rest => (expectSpace rest).map fun rest => (false, rest)
    | _ => .ok (true, cs)
  let (name, cs) ← takeName cs
  let cs ← expectSpace cs
  let (value, cs) ← takeDefinition general cs
  let cs ← expectChar '>' (skipSpace cs)
  .ok (value.map fun v => ⟨name, v⟩, cs)

/-- Whether a text begins with a declaration that is skipped. -/
def beginsSkipped (cs : List Char) : Bool :=
  begins "<!ELEMENT" cs || begins "<!ATTLIST" cs || begins "<!NOTATION" cs

/-- The declarations of a document type up to its closing bracket. -/
def takeSubset : Nat → Document → List Entity → List Char →
    Except Fault (Document × List Entity × List Char)
  | 0, _, _, _ => .error .endOfText
  | fuel + 1, d, entities, cs =>
    let cs := skipSpace cs
    if begins "<!ENTITY" cs then do
      let (entity, rest) ← takeEntity (cs.drop 8)
      takeSubset fuel d (entities ++ entity.toList) rest
    else if beginsSkipped cs then do
      let rest ← expectChar '>' (cs.dropWhile (· ≠ '>'))
      takeSubset fuel d entities rest
    else
      match cs with
      | '<' :: '!' :: '-' :: '-' :: rest => do
        let (content, rest) ← takeComment rest
        takeSubset fuel (d.appendComment Document.root (String.ofList content)).1 entities rest
      | '<' :: '?' :: rest => do
        let ((target, content), rest) ← takeInstruction rest
        let node := Payload.instruction (String.ofList target) (String.ofList content)
        takeSubset fuel (d.push Document.root node).1 entities rest
      | ']' :: rest => do
        let rest ← expectChar '>' (skipSpace rest)
        .ok (d, entities, rest)
      | c :: _ => .error (.misplaced c)
      | [] => .error .endOfText

/-- A document type after its opening: its name, an optional reference to a text elsewhere, and
optional declarations. -/
def takeDoctype (d : Document) (cs : List Char) :
    Except Fault (Document × List Entity × List Char) := do
  let cs ← expectSpace cs
  let (_, cs) ← takeName cs
  let (_, cs) ← takeExternal (skipSpace cs)
  match skipSpace cs with
  | '>' :: rest => .ok (d, [], rest)
  | '[' :: rest => takeSubset (rest.length + 1) d [] rest
  | c :: _ => .error (.misplaced c)
  | [] => .error .endOfText

/-- A text without the mark that tells the order of its bytes. -/
def skipMark : List Char → List Char
  | '\uFEFF' :: rest => rest
  | cs => cs

/-- A text after its declaration, if it begins with one. -/
def skipDeclaration (cs : List Char) : Except Fault (List Char) :=
  if begins "<?xml " cs then takeDeclaration (cs.drop 5) else .ok cs

/-- What stands before the element of a document, behind the declaration: the document so far and
the entities that were declared. -/
def takeProlog (cs : List Char) : Except Fault (Document × List Entity × List Char) := do
  let (d, cs) ← takeMisc (cs.length + 1) .empty cs
  let cs := skipSpace cs
  if begins "<!DOCTYPE" cs then do
    let (d, entities, cs) ← takeDoctype d (cs.drop 9)
    let (d, cs) ← takeMisc (cs.length + 1) d cs
    .ok (d, entities, skipSpace cs)
  else .ok (d, [], cs)

end MarkupRules.Markup
