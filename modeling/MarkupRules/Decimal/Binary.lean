/-
# Doubles as exact numbers

A double is not-a-number, an infinity, or `± m · 2 ^ q` with a natural `m`. This module moves
between that shape and the double, and finds the double nearest to a fraction, with ties going
to the even neighbour.

Key definitions: `twoTo`, `tenTo`, `Shape`, `shape`, `ofShape`, `nearest`, `ofNat`, `ofInt`.
-/

namespace MarkupRules.Decimal

/-- What a double stands for. -/
inductive Shape where
  /-- Not a number. -/
  | nan
  /-- An infinity. -/
  | infinite (negative : Bool)
  /-- The number `± significand · 2 ^ exponent`. -/
  | finite (negative : Bool) (significand : Nat) (exponent : Int)
  deriving DecidableEq, Repr

/-- A power of two. -/
def twoTo (n : Nat) : Nat :=
  Nat.pow 2 n

/-- A power of ten. -/
def tenTo (n : Nat) : Nat :=
  Nat.pow 10 n

/-- The number of significand bits after the leading one. -/
def fractionBits : Nat := 52

/-- The exponent of the smallest positive double. -/
def leastExponent : Int := -1074

/-- The largest exponent of a significand of full length. -/
def greatestExponent : Int := 971

/-- The shape written in the 64 bits of a double. -/
def shapeOfBits (bits : Nat) : Shape :=
  let negative := twoTo 63 ≤ bits
  let field := bits / twoTo fractionBits % 2048
  let fraction := bits % twoTo fractionBits
  if field = 2047 then
    if fraction = 0 then .infinite negative else .nan
  else if field = 0 then .finite negative fraction leastExponent
  else .finite negative (fraction + twoTo fractionBits) (leastExponent + (field - 1 : Nat))

/-- The shape of a double. -/
def shape (x : Float) : Shape :=
  shapeOfBits x.toBits.toNat

/-- The bits of the sign. -/
def signBits (negative : Bool) : Nat :=
  if negative then twoTo 63 else 0

/-- The bits of `m · 2 ^ q`, for an `m` of at most 53 bits that has 53 bits unless `q` is the
least exponent. -/
def magnitudeBits (m : Nat) (q : Int) : Nat :=
  if m < twoTo fractionBits then m
  else (q - leastExponent + 1).toNat * twoTo fractionBits + (m - twoTo fractionBits)

/-- A quotient rounded to the nearest natural, a half to the even neighbour. -/
def roundQuotient (num den : Nat) : Nat :=
  let whole := num / den
  let rest := num % den
  if 2 * rest < den then whole
  else if den < 2 * rest then whole + 1
  else if whole % 2 = 0 then whole else whole + 1

/-- `num / (den · 2 ^ q)` as a fraction of naturals. -/
def scaled (num den : Nat) (q : Int) : Nat × Nat :=
  if 0 ≤ q then (num, den * twoTo q.toNat) else (num * twoTo (-q).toNat, den)

/-- The exponent at which `num / den` has 53 bits before the binary point, but not below the
least one. -/
def quotientExponent (num den : Nat) : Int :=
  let guess : Int := (num.log2 : Int) - den.log2 - fractionBits
  let (a, b) := scaled num den guess
  max leastExponent (if a < b * twoTo fractionBits then guess - 1 else guess)

/-- The bits of the magnitude nearest to the fraction `num / den`. -/
def nearestBits (num den : Nat) : Nat :=
  if num = 0 ∨ den = 0 then 0
  else
    let q := quotientExponent num den
    let (a, b) := scaled num den q
    let m := roundQuotient a b
    let (m, q) := if m = twoTo (fractionBits + 1) then (twoTo fractionBits, q + 1) else (m, q)
    if greatestExponent < q then 2047 * twoTo fractionBits else magnitudeBits m q

/-- The double nearest to `± num / den`; beyond the largest double it is an infinity. -/
def nearest (negative : Bool) (num den : Nat) : Float :=
  Float.ofBits (UInt64.ofNat (signBits negative + nearestBits num den))

/-- The double of a shape; a number that is not a double is rounded. -/
def ofShape : Shape → Float
  | .nan => Float.ofBits (UInt64.ofNat (2047 * twoTo 52 + twoTo 51))
  | .infinite negative => Float.ofBits (UInt64.ofNat (signBits negative + 2047 * twoTo 52))
  | .finite negative m q =>
    if 0 ≤ q then nearest negative (m * twoTo q.toNat) 1
    else nearest negative m (twoTo (-q).toNat)

/-- Not a number. -/
def nan : Float := ofShape .nan

/-- The positive infinity. -/
def infinity : Float := ofShape (.infinite false)

/-- The double nearest to a natural. -/
def ofNat (n : Nat) : Float :=
  nearest false n 1

/-- The double nearest to an integer. -/
def ofInt : Int → Float
  | .ofNat n => nearest false n 1
  | .negSucc n => nearest true (n + 1) 1

/-- The remainder of a division that rounds its quotient toward zero; it has the sign of the
dividend and is exact. -/
def remainder (x y : Float) : Float :=
  match shape x, shape y with
  | .finite negative m p, .finite _ n q =>
    if n = 0 then nan
    else
      let low := min p q
      let r := m * twoTo (p - low).toNat % (n * twoTo (q - low).toNat)
      ofShape (.finite negative r low)
  | .finite _ _ _, .infinite _ => x
  | _, _ => nan

/-- The nearest integer, a half going up; what is not finite stays as it is. -/
def roundHalfUp (x : Float) : Float :=
  match shape x with
  | .finite _ _ _ => (x + 0.5).floor
  | _ => x

end MarkupRules.Decimal
