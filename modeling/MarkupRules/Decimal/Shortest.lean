/-
# The shortest decimal that reads back

Among the decimals that lie nearer to a given double than to any other, the one with the fewest
digits, and of those the nearest to the double. Everything is exact arithmetic on naturals: the
double is `m · 2 ^ q`, and the decimals of one length near it are its two neighbours on a grid
of powers of ten.

Key definitions: `Digits`, `onGrid?`, `shortest`.
-/
import MarkupRules.Decimal.Binary

namespace MarkupRules.Decimal

/-- The number `significand · 10 ^ exponent`. -/
structure Digits where
  /-- The digits, read as one natural. -/
  significand : Nat
  /-- The power of ten of the last digit. -/
  exponent : Int
  deriving DecidableEq, Repr

/-- The reals that round to `m · 2 ^ q`, in units of `2 ^ (q - 2)`: both ends, which belong to
the interval when `m` is even. The lower half is shorter where the exponent changes. -/
def rounding (m : Nat) (q : Int) : Nat × Nat :=
  let shortBelow := m = twoTo fractionBits ∧ leastExponent < q
  (4 * m - (if shortBelow then 1 else 2), 4 * m + 2)

/-- `10 ^ e` and `2 ^ (q - 2)` as integers of one common unit. -/
def commonUnit (q e : Int) : Nat × Nat :=
  let b := q - 2
  let ten := tenTo e.toNat * twoTo (-b).toNat
  let two := twoTo b.toNat * tenTo (-e).toNat
  (ten, two)

/-- The multiple of `10 ^ e` nearest to `m · 2 ^ q`, if one lies in the interval of reals that
round to it; a tie goes up. -/
def onGrid? (m : Nat) (q e : Int) : Option Nat :=
  let (ten, two) := commonUnit q e
  let value := 4 * m * two
  let (lo, hi) := ((rounding m q).1 * two, (rounding m q).2 * two)
  let inside (x : Nat) : Bool :=
    if m % 2 = 0 then lo ≤ x && x ≤ hi else lo < x && x < hi
  let below := value / ten
  let rest := value % ten
  let downFits := inside (below * ten)
  let upFits := inside ((below + 1) * ten)
  if upFits && (!downFits || ten ≤ 2 * rest) then some (below + 1)
  else if downFits then some below
  else none

/-- Digits without trailing zeros, with at most `fuel` of them removed. -/
def stripZeros : Nat → Nat → Int → Digits
  | 0, n, e => ⟨n, e⟩
  | fuel + 1, n, e =>
    if n ≠ 0 ∧ n % 10 = 0 then stripZeros fuel (n / 10) (e + 1) else ⟨n, e⟩

/-- The largest power of ten that is at most `m · 2 ^ q`, searched downward from `e`. -/
def topExponent (m : Nat) (q : Int) : Nat → Int → Int
  | 0, e => e
  | fuel + 1, e =>
    let (ten, two) := commonUnit q e
    if ten ≤ 4 * m * two then e else topExponent m q fuel (e - 1)

/-- The first hit on the grids `10 ^ e`, `10 ^ (e - 1)`, …. -/
def firstHit (m : Nat) (q : Int) : Nat → Int → Digits
  | 0, e => ⟨m, e⟩
  | fuel + 1, e =>
    match onGrid? m q e with
    | some n => stripZeros 400 n e
    | none => firstHit m q fuel (e - 1)

/-- The shortest decimal that rounds to `m · 2 ^ q`, for a positive `m`. The first power of ten
tried is an upper estimate from the number of bits. -/
def shortest (m : Nat) (q : Int) : Digits :=
  let bits : Int := (m.log2 : Int) + q
  let guess : Int := bits * 30103 / 100000 + 2
  let top := topExponent m q 6 guess
  firstHit m q 20 top

end MarkupRules.Decimal
