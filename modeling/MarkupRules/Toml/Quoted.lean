/-
# Quoted texts in settings

A text stands between double quotes, where a backslash starts an escape, or between single
quotes, where every character stands for itself. One quote on each side holds the text on its
line. Three quotes on each side let it run over lines: a line end right after the opening is
dropped, one or two quotes may stand inside, and up to two more may precede the closing ones. A
backslash at the end of a line joins the line with the next text.

Key definitions: `readEscape?`, `readLine`, `readBlock`, `readQuoted`.
-/
import MarkupRules.Toml.Layout
import MarkupRules.Json.Reader

namespace MarkupRules.Toml

/-- The character of a one-letter escape. -/
def letterEscape? : Char → Option Char
  | '"' => some '"'
  | '\\' => some '\\'
  | 'b' => some '\x08'
  | 'f' => some '\x0c'
  | 'n' => some '\n'
  | 'r' => some '\r'
  | 't' => some '\t'
  | _ => none

/-- The character whose code is written by exactly `width` hexadecimal digits, and the rest.
Codes that are no characters stand for nothing. -/
def readCode? (width : Nat) (cs : List Char) : Option (Char × List Char) := do
  let digits ← (cs.take width).mapM Json.hexDigit?
  let code := digits.foldl (fun n d => n * 16 + d) 0
  if digits.length = width && decide (code.isValidChar) then
    some (Char.ofNat code, cs.drop width)
  else none

/-- The character that an escape after its backslash stands for, and the rest. -/
def readEscape? : List Char → Option (Char × List Char)
  | [] => none
  | 'u' :: rest => readCode? 4 rest
  | 'U' :: rest => readCode? 8 rest
  | c :: rest => (letterEscape? c).map fun d => (d, rest)

/-- The text up to the closing `quote` on the same line, with `acc` read so far (reversed). -/
def readLine (quote : Char) : Nat → List Char → List Char → Except Fault (String × List Char)
  | 0, _, _ => .error .unclosed
  | _ + 1, _, [] => .error .unclosed
  | fuel + 1, acc, c :: rest =>
    if c = quote then .ok (String.ofList acc.reverse, rest)
    else if c = '\\' && quote = '"' then
      match readEscape? rest with
      | some (d, rest) => readLine quote fuel (d :: acc) rest
      | none => .error .badEscape
    else if isContent c then readLine quote fuel (c :: acc) rest
    else .error (.badCharacter c.toNat)

/-- The text up to the three closing quotes, with `acc` read so far (reversed). -/
def readBlock (quote : Char) :
    Nat → List Char → List Char → Except Fault (String × List Char)
  | 0, _, _ => .error .unclosed
  | _ + 1, _, [] => .error .unclosed
  | fuel + 1, acc, c :: rest =>
    if c = quote then
      let quotes := 1 + (rest.takeWhile (· = quote)).length
      let after := rest.dropWhile (· = quote)
      if quotes ≤ 2 then readBlock quote fuel (List.replicate quotes quote ++ acc) after
      else if quotes ≤ 5 then
        .ok (String.ofList (List.replicate (quotes - 3) quote ++ acc).reverse, after)
      else .error (.expected "three quotes")
    else
      match takeNewline? (c :: rest) with
      | some rest => readBlock quote fuel ('\n' :: acc) rest
      | none =>
        if c = '\\' && quote = '"' then
          match takeNewline? (skipBlanks rest) with
          | some rest => readBlock quote fuel acc (skipLines rest)
          | none =>
            match readEscape? rest with
            | some (d, rest) => readBlock quote fuel (d :: acc) rest
            | none => .error .badEscape
        else if isContent c then readBlock quote fuel (c :: acc) rest
        else .error (.badCharacter c.toNat)

/-- A text in one or three quotes, after its first quote. -/
def readQuoted (quote : Char) (cs : List Char) : Except Fault (String × List Char) :=
  match Moment.skipMark? quote cs with
  | none => readLine quote (cs.length + 1) [] cs
  | some rest =>
    match Moment.skipMark? quote rest with
    | none => .ok ("", rest)
    | some body =>
      readBlock quote (body.length + 1) [] ((takeNewline? body).getD body)

end MarkupRules.Toml
