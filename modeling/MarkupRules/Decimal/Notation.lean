/-
# Doubles as text

Three notations of the shortest decimal: `plain` writes all places and never an exponent,
`exact` adds a fraction to whole numbers and turns to an exponent for very large and very small
ones, and `numeral` is the text of a number in an expression.

Key definitions: `plain`, `exact`, `numeral`.
-/
import MarkupRules.Decimal.Shortest

namespace MarkupRules.Decimal

/-- The digits of a natural, most significant first. -/
def digitChars (n : Nat) : List Char :=
  Nat.toDigits 10 n

/-- All places of `significand · 10 ^ exponent`. -/
def Digits.places (d : Digits) : List Char :=
  let ds := digitChars d.significand
  if 0 ≤ d.exponent then ds ++ List.replicate d.exponent.toNat '0'
  else
    let after := (-d.exponent).toNat
    if after < ds.length then
      ds.take (ds.length - after) ++ '.' :: ds.drop (ds.length - after)
    else
      '0' :: '.' :: (List.replicate (after - ds.length) '0' ++ ds)

/-- One digit before the point, the rest behind it, and the exponent of ten. -/
def Digits.withExponent (d : Digits) : List Char :=
  let ds := digitChars d.significand
  let e : Int := d.exponent + (ds.length - 1 : Nat)
  let mantissa :=
    match ds with
    | [c] => [c]
    | c :: rest => c :: '.' :: rest
    | [] => []
  mantissa ++ 'e' :: (toString e).toList

/-- A text with a minus sign in front if `negative`. -/
def signed (negative : Bool) (cs : List Char) : String :=
  String.ofList (if negative then '-' :: cs else cs)

/-- All places of a double, without an exponent: `NaN`, `inf` and `-0` are written as such. -/
def plain (x : Float) : String :=
  match shape x with
  | .nan => "NaN"
  | .infinite negative => signed negative ['i', 'n', 'f']
  | .finite negative 0 _ => signed negative ['0']
  | .finite negative m q => signed negative (shortest m q).places

/-- A double with at least one place behind the point; from `10 ^ 16` up and below `10 ^ -4` it
is written with an exponent. -/
def exact (x : Float) : String :=
  match shape x with
  | .nan => "NaN"
  | .infinite negative => signed negative ['i', 'n', 'f']
  | .finite negative 0 _ => signed negative ['0', '.', '0']
  | .finite negative m q =>
    let d := shortest m q
    let top : Int := d.exponent + (digitChars d.significand).length
    if 16 < top ∨ top < -3 then signed negative d.withExponent
    else if 0 ≤ d.exponent then signed negative (d.places ++ ['.', '0'])
    else signed negative d.places

/-- The text of a number in an expression: infinities are spelled out and zero has no sign. -/
def numeral (x : Float) : String :=
  match shape x with
  | .nan => "NaN"
  | .infinite negative => signed negative "Infinity".toList
  | .finite _ 0 _ => "0"
  | .finite negative m q => signed negative (shortest m q).places

end MarkupRules.Decimal
