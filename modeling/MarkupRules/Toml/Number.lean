/-
# Numbers in settings

An integer is written in decimal with an optional sign and no zeros in front, or in base 16, 8
or 2 after `0x`, `0o` or `0b`. A number with a fraction or an exponent is a double, as are
infinity and the non-number. Single underscores may stand between digits.

Key definitions: `digitsOf?`, `readWhole?`, `readReal?`.
-/
import MarkupRules.Json.Reader

namespace MarkupRules.Toml

open Decimal (takeSign readNat)

/-- The digits of a run of digits with single underscores between them. -/
def digitsOf? (isDigit : Char → Bool) : List Char → Option (List Char)
  | [] => none
  | [c] => if isDigit c then some [c] else none
  | c :: '_' :: rest => if isDigit c then (digitsOf? isDigit rest).map (c :: ·) else none
  | c :: d :: rest => if isDigit c then (digitsOf? isDigit (d :: rest)).map (c :: ·) else none

/-- The number written by digits of a base from 2 to 16. -/
def ofBase? (base : Nat) (cs : List Char) : Option Nat :=
  (digitsOf? (fun c => ((Json.hexDigit? c).filter (· < base)).isSome) cs).map fun digits =>
    digits.foldl (fun n c => n * base + (Json.hexDigit? c).getD 0) 0

/-- The digits of a decimal whose first digit is zero only if it is the only one. -/
def decimalOf? (cs : List Char) : Option (List Char) :=
  if cs.head? = some '0' && cs ≠ ['0'] then none else digitsOf? Char.isDigit cs

/-- The integer a word writes, if it fits 64 bits. -/
def readWhole? (word : List Char) : Option Int :=
  let value : Option Int :=
    match word with
    | '0' :: 'x' :: rest => (ofBase? 16 rest).map Int.ofNat
    | '0' :: 'o' :: rest => (ofBase? 8 rest).map Int.ofNat
    | '0' :: 'b' :: rest => (ofBase? 2 rest).map Int.ofNat
    | _ =>
      let (negative, body) := takeSign word
      (decimalOf? body).map fun digits =>
        if negative then -(readNat digits : Int) else readNat digits
  value.filter Json.fitsWhole

/-- The part of a number up to its exponent, and the exponent's sign and digits if it has
one. -/
def splitExponent (cs : List Char) : List Char × Option (List Char) :=
  match cs.dropWhile fun c => c ≠ 'e' && c ≠ 'E' with
  | [] => (cs, none)
  | _ :: rest => (cs.takeWhile fun c => c ≠ 'e' && c ≠ 'E', some (takeSign rest).2)

/-- Whether a word without its sign is a decimal with a fraction, an exponent or both. -/
def isRealShape (cs : List Char) : Bool :=
  let (mantissa, exponent) := splitExponent cs
  let whole := mantissa.takeWhile (· ≠ '.')
  let exponentOk := (exponent.map fun digits => (digitsOf? Char.isDigit digits).isSome).getD true
  match mantissa.dropWhile (· ≠ '.') with
  | [] => exponent.isSome && (decimalOf? whole).isSome && exponentOk
  | _ :: fraction =>
    (decimalOf? whole).isSome && (digitsOf? Char.isDigit fraction).isSome && exponentOk

/-- The double a word writes. Digits for a number beyond every positive double write none. -/
def readReal? (word : List Char) : Option Float :=
  let (negative, body) := takeSign word
  if body = "inf".toList then some (Decimal.ofShape (.infinite negative))
  else if body = "nan".toList then some Decimal.nan
  else if isRealShape body then
    (Decimal.readUnsigned? negative (body.filter (· ≠ '_'))).filter fun f =>
      match Decimal.shape f with
      | .infinite minus => minus
      | _ => true
  else none

end MarkupRules.Toml
