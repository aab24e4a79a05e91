/-
# Reading JSON

A recursive reader on lists of characters. Whole numbers that fit 64 bits stay whole; every
other number becomes a double by a scheme of its own: the leading digits that fit 64 bits
without sign are taken as one number, all further digits only move the exponent, and the result
is one multiplication or division by a power of ten. It therefore differs from the nearest
double in rare cases.

Key definitions: `Json.read?`.
-/
import MarkupRules.Json.Basic
import MarkupRules.Decimal.Reader

namespace MarkupRules.Json

open Decimal (spanDigits takeSign)

/-- Characters that may stand between the tokens of a value. -/
def skipSpace (cs : List Char) : List Char :=
  cs.dropWhile Text.isSpace

/-- The value of a hexadecimal digit. -/
def hexDigit? (c : Char) : Option Nat :=
  if c.isDigit then some (c.toNat - '0'.toNat)
  else if 'a' ≤ c ∧ c ≤ 'f' then some (c.toNat - 'a'.toNat + 10)
  else if 'A' ≤ c ∧ c ≤ 'F' then some (c.toNat - 'A'.toNat + 10)
  else none

/-- The number written by exactly four hexadecimal digits, and the rest. -/
def readFourHex? : List Char → Option (Nat × List Char)
  | a :: b :: c :: d :: rest => do
    let a ← hexDigit? a
    let b ← hexDigit? b
    let c ← hexDigit? c
    let d ← hexDigit? d
    some (((a * 16 + b) * 16 + c) * 16 + d, rest)
  | _ => none

/-- A character written by its code, as one unit or as a pair of surrogates. -/
def readCode? (cs : List Char) : Option (Char × List Char) := do
  let (n, rest) ← readFourHex? cs
  if 0xD800 ≤ n ∧ n ≤ 0xDBFF then
    match rest with
    | '\\' :: 'u' :: rest =>
      let (m, rest) ← readFourHex? rest
      if 0xDC00 ≤ m ∧ m ≤ 0xDFFF then
        some (Char.ofNat (0x10000 + (n - 0xD800) * 0x400 + (m - 0xDC00)), rest)
      else none
    | _ => none
  else if 0xDC00 ≤ n ∧ n ≤ 0xDFFF then none
  else some (Char.ofNat n, rest)

/-- The character of a one-letter escape. -/
def shortEscape? : Char → Option Char
  | '"' => some '"'
  | '\\' => some '\\'
  | '/' => some '/'
  | 'b' => some '\x08'
  | 'f' => some '\x0c'
  | 'n' => some '\n'
  | 'r' => some '\r'
  | 't' => some '\t'
  | _ => none

/-- The text up to the closing quote, with `acc` read so far (reversed). -/
def readText? : Nat → List Char → List Char → Option (String × List Char)
  | 0, _, _ => none
  | _ + 1, _, [] => none
  | fuel + 1, acc, c :: rest =>
    if c = '"' then some (String.ofList acc.reverse, rest)
    else if c = '\\' then
      match rest with
      | 'u' :: rest =>
        match readCode? rest with
        | some (d, rest) => readText? fuel (d :: acc) rest
        | none => none
      | e :: rest =>
        match shortEscape? e with
        | some d => readText? fuel (d :: acc) rest
        | none => none
      | [] => none
    else if c.toNat < 32 then none
    else readText? fuel (c :: acc) rest

/-- The digits that extend `n` without passing 64 bits, then how many digits are left over, and
the rest. -/
def gather (n : Nat) : List Char → Nat × Nat × Nat
  | [] => (n, 0, 0)
  | c :: rest =>
    if n * 10 + (c.toNat - '0'.toNat) < Decimal.twoTo 64 then
      let (m, used, left) := gather (n * 10 + (c.toNat - '0'.toNat)) rest
      (m, used + 1, left)
    else (n, 0, rest.length + 1)

/-- `significand · 10 ^ exponent` by repeated scaling with powers of ten; none beyond the
largest double. -/
def scale? : Nat → Float → Int → Option Float
  | 0, f, _ => some f
  | fuel + 1, f, e =>
    if e.natAbs ≤ 308 then
      let power := Decimal.ofDecimal false 1 e.natAbs
      if 0 ≤ e then
        match Decimal.shape (f * power) with
        | .infinite _ => none
        | _ => some (f * power)
      else some (f / power)
    else if f == 0 then some f
    else if 0 ≤ e then none
    else scale? fuel (f / Decimal.ofDecimal false 1 308) (e + 308)

/-- The sum of two exponents, kept within 32 bits with sign. -/
def clampExponent (e : Int) : Int :=
  max (-2147483648) (min 2147483647 e)

/-- The double made of gathered digits and an exponent. -/
def realOf? (negative : Bool) (significand : Nat) (exponent : Int) : Option Float :=
  (scale? 20 (Decimal.ofNat significand) exponent).map fun f => if negative then -f else f

/-- The exponent part of a number and the double it completes. -/
def readPower? (negative : Bool) (significand : Nat) (start : Int) (cs : List Char) :
    Option (Float × List Char) :=
  let (down, rest) := takeSign cs
  let (digits, rest) := spanDigits rest
  if digits.isEmpty then none
  else
    let e : Int := Decimal.readNat digits
    if 2147483647 < e then
      if significand ≠ 0 ∧ !down then none
      else some (if negative then -0.0 else 0.0, rest)
    else
      (realOf? negative significand (clampExponent (if down then start - e else start + e))).map
        fun f => (f, rest)

/-- What may follow the digits of a number, given the gathered digits and the exponent so far. -/
def readTail? (negative : Bool) (significand : Nat) (exponent : Int) (cs : List Char) :
    Option (Float × List Char) :=
  match cs with
  | 'e' :: rest => readPower? negative significand exponent rest
  | 'E' :: rest => readPower? negative significand exponent rest
  | _ => (realOf? negative significand exponent).map fun f => (f, cs)

/-- A number after its sign. Digits past the 64 bits of an integer part raise the exponent, past
those of a fraction they are dropped. -/
def readNumber? (negative : Bool) (cs : List Char) : Option (Json × List Char) :=
  let (digits, rest) := spanDigits cs
  if digits.isEmpty || (1 < digits.length && digits.head? == some '0') then none
  else
    let (n, _, extra) := gather 0 digits
    match rest with
    | '.' :: rest =>
      let (fraction, rest) := spanDigits rest
      if fraction.isEmpty then none
      else
        let (m, used, _) := gather n fraction
        (readTail? negative m ((extra : Int) - used) rest).map fun p => (.real p.1, p.2)
    | _ =>
      let plainWhole : Int := if negative then -(n : Int) else n
      let ends :=
        match rest with
        | 'e' :: _ => false
        | 'E' :: _ => false
        | _ => true
      if ends && extra = 0 && fitsWhole plainWhole && !(negative && n = 0) then
        some (.whole plainWhole, rest)
      else (readTail? negative n extra rest).map fun p => (.real p.1, p.2)

/-- The word `w`, and then `j` and the rest. -/
def readWord? (w : String) (j : Json) (cs : List Char) : Option (Json × List Char) :=
  if cs.take w.length = w.toList then some (j, cs.drop w.length) else none

mutual

/-- One value after optional spaces. -/
def readValue? : Nat → List Char → Option (Json × List Char)
  | 0, _ => none
  | fuel + 1, cs =>
    match skipSpace cs with
    | '"' :: rest => (readText? (rest.length + 1) [] rest).map fun p => (.text p.1, p.2)
    | '[' :: rest =>
      match skipSpace rest with
      | ']' :: rest => some (.list [], rest)
      | rest => (readItems? fuel rest).map fun p => (.list p.1, p.2)
    | '\x7b' :: rest =>
      match skipSpace rest with
      | '\x7d' :: rest => some (.record [], rest)
      | rest => (readMembers? fuel rest).map fun p => (.record p.1, p.2)
    | '-' :: rest => readNumber? true rest
    | 't' :: rest => readWord? "rue" (.bool true) rest
    | 'f' :: rest => readWord? "alse" (.bool false) rest
    | 'n' :: rest => readWord? "ull" .null rest
    | rest => readNumber? false rest

/-- The values of a list up to its closing bracket. -/
def readItems? : Nat → List Char → Option (List Json × List Char)
  | 0, _ => none
  | fuel + 1, cs =>
    match readValue? fuel cs with
    | none => none
    | some (item, rest) =>
      match skipSpace rest with
      | ',' :: rest => (readItems? fuel rest).map fun p => (item :: p.1, p.2)
      | ']' :: rest => some ([item], rest)
      | _ => none

/-- The members of a record up to its closing brace. -/
def readMembers? : Nat → List Char → Option (List (String × Json) × List Char)
  | 0, _ => none
  | fuel + 1, cs =>
    match skipSpace cs with
    | '"' :: rest =>
      match readText? (rest.length + 1) [] rest with
      | none => none
      | some (name, rest) =>
        match skipSpace rest with
        | ':' :: rest =>
          match readValue? fuel rest with
          | none => none
          | some (value, rest) =>
            match skipSpace rest with
            | ',' :: rest => (readMembers? fuel rest).map fun p => ((name, value) :: p.1, p.2)
            | '\x7d' :: rest => some ([(name, value)], rest)
            | _ => none
        | _ => none
    | _ => none

end

/-- The value written by a whole text. -/
def read? (text : String) : Option Json :=
  let cs := text.toList
  match readValue? (2 * cs.length + 2) cs with
  | some (j, rest) => if (skipSpace rest).isEmpty then some j else none
  | none => none

end MarkupRules.Json
