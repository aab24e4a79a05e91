/-
# Reading decimals

A decimal is a run of digits with at most one point and an optional exponent; every text is
read as the double nearest to the number it names. Numbers beyond the range of doubles become
an infinity or zero.

Key definitions: `ofDecimal`, `ofText?`, `ofNumeral`.
-/
import MarkupRules.Decimal.Binary
import MarkupRules.Decimal.Digits
import MarkupRules.Text.Blank

namespace MarkupRules.Decimal

/-- The double nearest to `± significand · 10 ^ exponent`. Exponents that carry the number
beyond every double are decided by the number of digits alone. -/
def ofDecimal (negative : Bool) (significand : Nat) (exponent : Int) : Float :=
  if significand = 0 then nearest negative 0 1
  else
    let length : Int := (significand.log2 : Int) * 30103 / 100000 + 1
    if 400 < length + exponent then ofShape (.infinite negative)
    else if length + exponent < -400 then nearest negative 0 1
    else if 0 ≤ exponent then nearest negative (significand * tenTo exponent.toNat) 1
    else nearest negative significand (tenTo (-exponent).toNat)

/-- A text split after its leading digits. -/
def spanDigits (cs : List Char) : List Char × List Char :=
  (cs.takeWhile Char.isDigit, cs.dropWhile Char.isDigit)

/-- An optional sign and the rest. -/
def takeSign : List Char → Bool × List Char
  | '-' :: rest => (true, rest)
  | '+' :: rest => (false, rest)
  | cs => (false, cs)

/-- The exponent that ends a decimal: nothing, or a letter `e`, a sign and digits. -/
def readExponent? : List Char → Option Int
  | [] => some 0
  | e :: rest =>
    if e = 'e' ∨ e = 'E' then
      let (negative, rest) := takeSign rest
      let (digits, rest) := spanDigits rest
      if digits.isEmpty || !rest.isEmpty then none
      else some (if negative then -(readNat digits : Int) else readNat digits)
    else none

/-- Digits, a point, digits and an exponent, with at least one digit before the exponent. -/
def readUnsigned? (negative : Bool) (cs : List Char) : Option Float :=
  let (whole, rest) := spanDigits cs
  let (fraction, rest) :=
    match rest with
    | '.' :: rest => spanDigits rest
    | _ => ([], rest)
  if whole.isEmpty && fraction.isEmpty then none
  else
    (readExponent? rest).map fun e =>
      ofDecimal negative (readNat (whole ++ fraction)) (e - fraction.length)

/-- The number a text names: a decimal, or `inf`, `infinity`, `nan` in any case, with an
optional sign. -/
def ofText? (text : String) : Option Float :=
  let (negative, cs) := takeSign text.toList
  let word := cs.map Char.toLower
  if word = "inf".toList ∨ word = "infinity".toList then some (ofShape (.infinite negative))
  else if word = "nan".toList then some nan
  else readUnsigned? negative cs

/-- The integer a text names: an optional sign and digits. -/
def intOfText? (text : String) : Option Int :=
  let (negative, cs) := takeSign text.toList
  let (digits, rest) := spanDigits cs
  if digits.isEmpty || !rest.isEmpty then none
  else some (if negative then -(readNat digits : Int) else readNat digits)

/-- Digits with at most one point, and at least one digit. -/
def isNumeral (cs : List Char) : Bool :=
  cs.any Char.isDigit && cs.all (fun c => c.isDigit || c = '.') && cs.count '.' ≤ 1

/-- The number of a text in an expression: markup spaces around an optional minus and digits
with at most one point. Every other text is not a number. -/
def ofNumeral (text : String) : Float :=
  let cs := (Text.trimSpace text).toList
  let (negative, body) :=
    match cs with
    | '-' :: rest => (true, rest)
    | _ => (false, cs)
  if isNumeral body then (readUnsigned? negative body).getD nan else nan

end MarkupRules.Decimal
