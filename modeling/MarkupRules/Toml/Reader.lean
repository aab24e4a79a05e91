/-
# Reading settings

A settings text is a sequence of lines: a key with its value, a header that opens a table, a
doubled header that starts the next table of a list, a comment, or nothing. A value may run over
lines. Each line changes the table read so far; the first fault ends the reading.

Key definitions: `readValue`, `Statement`, `readStatement`, `Toml.read`.
-/
import MarkupRules.Toml.Number
import MarkupRules.Toml.Quoted
import MarkupRules.Toml.Table

namespace MarkupRules.Toml

/-- Lists, inline tables and dotted keys have fewer levels than this. -/
def levelLimit : Nat := 80

/-- A character of a key without quotes. -/
def isBareKey (c : Char) : Bool :=
  c.isAlphanum || c = '_' || c = '-'

/-- One key, quoted or bare. -/
def readKey (cs : List Char) : Except Fault (String × List Char) :=
  match cs with
  | '"' :: rest => readLine '"' (rest.length + 1) [] rest
  | '\'' :: rest => readLine '\'' (rest.length + 1) [] rest
  | _ =>
    let word := cs.takeWhile isBareKey
    if word.isEmpty then .error (.expected "a key")
    else .ok (String.ofList word, cs.dropWhile isBareKey)

/-- Keys joined by points, with blanks around each. -/
def readPath : Nat → List Char → Except Fault (KeyPath × List Char)
  | 0, _ => .error .tooDeep
  | fuel + 1, cs =>
    match readKey (skipBlanks cs) with
    | .error e => .error e
    | .ok (key, rest) =>
      match skipBlanks rest with
      | '.' :: rest => (readPath fuel rest).map fun p => (⟨key :: p.1.parents, p.1.key⟩, p.2)
      | rest => .ok (⟨[], key⟩, rest)

/-- Keys joined by points, fewer than the limit. -/
def readKeys (cs : List Char) : Except Fault (KeyPath × List Char) :=
  readPath (levelLimit - 1) cs

/-- Reads the mark `c`. -/
def takeMark (c : Char) (cs : List Char) : Except Fault (List Char) :=
  match Moment.skipMark? c cs with
  | some rest => .ok rest
  | none => .error (.expected ("'" ++ c.toString ++ "'"))

/-- A key, an equals sign and a value. -/
def readPair (readItem : List Char → Except Fault (Toml × List Char)) (cs : List Char) :
    Except Fault ((KeyPath × Toml) × List Char) := do
  let (path, rest) ← readKeys cs
  let rest ← takeMark '=' rest
  let (v, rest) ← readItem (skipBlanks rest)
  .ok ((path, v), rest)

/-- The values of a list up to its closing bracket. Every value may be followed by a comma, and
lines may end and comments stand between the parts. -/
def readItems (readItem : List Char → Except Fault (Toml × List Char)) :
    Nat → List Char → Except Fault (List Toml × List Char)
  | 0, _ => .error (.expected "']'")
  | fuel + 1, cs =>
    match skipLayout false cs with
    | ']' :: rest => .ok ([], rest)
    | cs =>
      match readItem cs with
      | .error e => .error e
      | .ok (v, rest) =>
        match skipLayout false rest with
        | ',' :: rest => (readItems readItem fuel rest).map fun p => (v :: p.1, p.2)
        | ']' :: rest => .ok ([v], rest)
        | _ => .error (.expected "',' or ']'")

/-- The pairs of an inline table up to its closing brace, separated by commas and on one
line. -/
def readMembers (readItem : List Char → Except Fault (Toml × List Char)) :
    Nat → Items → List Char → Except Fault (Items × List Char)
  | 0, _, _ => .error (.expected "'\x7d'")
  | fuel + 1, items, cs =>
    match readPair readItem cs with
    | .error e => .error e
    | .ok ((path, v), rest) =>
      match assign path.key v path.parents items with
      | .error e => .error e
      | .ok items =>
        match skipBlanks rest with
        | ',' :: rest => readMembers readItem fuel items rest
        | '\x7d' :: rest => .ok (items, rest)
        | _ => .error (.expected "',' or '\x7d'")

/-- A list after its opening bracket. -/
def readList (readItem : List Char → Except Fault (Toml × List Char)) (cs : List Char) :
    Except Fault (Toml × List Char) :=
  (readItems readItem (cs.length + 1) cs).map fun p => (.list p.1, p.2)

/-- An inline table after its opening brace. -/
def readInline (readItem : List Char → Except Fault (Toml × List Char)) (cs : List Char) :
    Except Fault (Toml × List Char) :=
  match skipBlanks cs with
  | '\x7d' :: rest => .ok (.table [], rest)
  | _ => (readMembers readItem (cs.length + 1) [] cs).map fun p => (.table (finishAll p.1), p.2)

/-- Whether a bare value ends before a character. -/
def endsWord (c : Char) : Bool :=
  c ∈ [' ', '\t', '\r', '\n', ',', ']', '\x7d', '#']

/-- A truth value, a number or a moment. -/
def readWord (cs : List Char) : Except Fault (Toml × List Char) :=
  match Moment.read? cs with
  | some (m, rest) => .ok (.moment m, rest)
  | none =>
    let word := cs.takeWhile fun c => !endsWord c
    let rest := cs.dropWhile fun c => !endsWord c
    if word = "true".toList then .ok (.bool true, rest)
    else if word = "false".toList then .ok (.bool false, rest)
    else
      match readWhole? word with
      | some n => .ok (.whole n, rest)
      | none =>
        match readReal? word with
        | some x => .ok (.real x, rest)
        | none => .error (.badValue (String.ofList word))

/-- One value, whose nested lists and tables have at most `levels` levels. -/
def readValueAt : (levels : Nat) → List Char → Except Fault (Toml × List Char)
  | 0, cs =>
    match cs with
    | '"' :: rest => (readQuoted '"' rest).map fun p => (.text p.1, p.2)
    | '\'' :: rest => (readQuoted '\'' rest).map fun p => (.text p.1, p.2)
    | '[' :: _ => .error .tooDeep
    | '\x7b' :: _ => .error .tooDeep
    | _ => readWord cs
  | levels + 1, cs =>
    match cs with
    | '"' :: rest => (readQuoted '"' rest).map fun p => (.text p.1, p.2)
    | '\'' :: rest => (readQuoted '\'' rest).map fun p => (.text p.1, p.2)
    | '[' :: rest => readList (readValueAt levels) rest
    | '\x7b' :: rest => readInline (readValueAt levels) rest
    | _ => readWord cs

/-- One value. -/
def readValue (cs : List Char) : Except Fault (Toml × List Char) :=
  readValueAt (levelLimit - 1) cs

/-- What a line says. -/
inductive Statement where
  /-- A key has a value. -/
  | pair (path : KeyPath) (value : Toml)
  /-- The following pairs belong to a table. -/
  | header (path : KeyPath)
  /-- The following pairs belong to the next table of a list. -/
  | listHeader (path : KeyPath)

/-- The statement of a line that has one. -/
def readStatement (cs : List Char) : Except Fault (Statement × List Char) :=
  match cs with
  | '[' :: '[' :: rest => do
    let (path, rest) ← readKeys rest
    let rest ← takeMark ']' rest
    let rest ← takeMark ']' rest
    .ok (.listHeader path, rest)
  | '[' :: rest => do
    let (path, rest) ← readKeys rest
    let rest ← takeMark ']' rest
    .ok (.header path, rest)
  | _ => (readPair readValue cs).map fun p => (.pair p.1.1 p.1.2, p.2)

/-- The tables read so far, and the header under which the next pairs stand. -/
structure Draft where
  /-- The entries of the whole text. -/
  items : Items
  /-- The keys of the current header. -/
  header : List String

/-- Adds what a line says. -/
def Draft.add (d : Draft) : Statement → Except Fault Draft
  | .pair path v =>
    (within (assign path.key v path.parents) d.header d.items).map fun items =>
      ⟨items, d.header⟩
  | .header path =>
    (openTable path d.items).map fun items => ⟨items, path.parents ++ [path.key]⟩
  | .listHeader path =>
    (openList path d.items).map fun items => ⟨items, path.parents ++ [path.key]⟩

/-- One line: nothing, a comment, or a statement. -/
def readOne (d : Draft) (cs : List Char) : Except Fault (Draft × List Char) :=
  match takeNewline? cs with
  | some rest => .ok (d, rest)
  | none =>
    if cs.head? = some '#' then (endLine cs).map fun rest => (d, rest)
    else do
      let (statement, rest) ← readStatement cs
      let rest ← endLine rest
      let d ← d.add statement
      .ok (d, rest)

/-- Where and why a text is no settings text. -/
structure ReadError where
  /-- The line on which the faulty statement begins, from 1. -/
  line : Nat
  /-- The fault. -/
  fault : Fault
  deriving DecidableEq, Repr

/-- An error in words. -/
def ReadError.message (e : ReadError) : String :=
  "line " ++ toString e.line ++ ": " ++ e.fault.message

/-- Reads line after line; `line` is the number of the current one. -/
def readLines : Nat → Nat → Draft → List Char → Except ReadError Draft
  | 0, line, _, _ => .error ⟨line, .expected "the end of the text"⟩
  | fuel + 1, line, d, cs =>
    match skipBlanks cs with
    | [] => .ok d
    | cs =>
      match readOne d cs with
      | .error e => .error ⟨line, e⟩
      | .ok (d, rest) => readLines fuel (line + (cs.count '\n' - rest.count '\n')) d rest

/-- The table that a settings text describes. A byte order mark in front is skipped. -/
def read (text : String) : Except ReadError (List (String × Toml)) :=
  let cs :=
    match text.toList with
    | '\ufeff' :: rest => rest
    | cs => cs
  (readLines (cs.length + 1) 1 ⟨[], []⟩ cs).map fun d => finishAll d.items

end MarkupRules.Toml
