/-
# Dates and times in settings

A moment is a date, a time of day, or both, and a moment with both may name its distance from
universal time. Months have their lengths, February those of leap years, and a minute may hold a
leap second. Fractions of a second are kept to the nanosecond; further digits are cut off.

Key definitions: `Moment`, `Moment.read?`, `Moment.text`.
-/
import MarkupRules.Decimal.Reader

namespace MarkupRules

/-- A day of the calendar. -/
structure Date where
  /-- The year, in four digits. -/
  year : Nat
  /-- The month, from 1. -/
  month : Nat
  /-- The day of the month, from 1. -/
  day : Nat
  deriving DecidableEq, Repr

/-- A time of day. -/
structure TimeOfDay where
  /-- The hour, from 0 to 23. -/
  hour : Nat
  /-- The minute. -/
  minute : Nat
  /-- The second, 60 for a leap second. -/
  second : Nat
  /-- The fraction of the second. -/
  nanosecond : Nat
  deriving DecidableEq, Repr

/-- How local time relates to universal time. -/
inductive Offset where
  /-- The time is universal. -/
  | universal
  /-- The local clock is ahead by so many minutes. -/
  | ahead (minutes : Int)
  deriving DecidableEq, Repr

/-- A date, a time of day, or both. -/
structure Moment where
  /-- The date. -/
  date? : Option Date
  /-- The time of day. -/
  time? : Option TimeOfDay
  /-- The distance from universal time. -/
  offset? : Option Offset
  deriving DecidableEq, Repr

/-- Whether a year has a 29th of February. -/
def isLeapYear (year : Nat) : Bool :=
  year % 4 = 0 && (year % 100 ≠ 0 || year % 400 = 0)

/-- The number of days of a month. -/
def daysInMonth (year month : Nat) : Nat :=
  if month = 2 then (if isLeapYear year then 29 else 28)
  else if month ∈ [4, 6, 9, 11] then 30
  else 31

namespace Moment

open Decimal (readNat spanDigits)

/-- The number written by exactly `width` digits, and the rest. -/
def readField? (width : Nat) (cs : List Char) : Option (Nat × List Char) :=
  if (cs.take width).length = width && (cs.take width).all Char.isDigit then
    some (readNat (cs.take width), cs.drop width)
  else none

/-- The rest of a text that begins with the character `c`. -/
def skipMark? (c : Char) : List Char → Option (List Char)
  | [] => none
  | d :: rest => if c = d then some rest else none

/-- A date, `year-month-day`. -/
def readDate? (cs : List Char) : Option (Date × List Char) := do
  let (year, rest) ← readField? 4 cs
  let rest ← skipMark? '-' rest
  let (month, rest) ← readField? 2 rest
  let rest ← skipMark? '-' rest
  let (day, rest) ← readField? 2 rest
  if 1 ≤ month && month ≤ 12 && 1 ≤ day && day ≤ daysInMonth year month then
    some (⟨year, month, day⟩, rest)
  else none

/-- The nanoseconds written by the digits of a fraction. -/
def nanoseconds (digits : List Char) : Nat :=
  readNat (digits.take 9) * Decimal.tenTo (9 - (digits.take 9).length)

/-- The fraction of a second, if a point with digits follows. -/
def readFraction (cs : List Char) : Nat × List Char :=
  match cs with
  | '.' :: rest =>
    let (digits, rest) := spanDigits rest
    if digits.isEmpty then (0, cs) else (nanoseconds digits, rest)
  | _ => (0, cs)

/-- An hour and a minute, `hour:minute`. -/
def readClock? (cs : List Char) : Option (Nat × Nat × List Char) := do
  let (hour, rest) ← readField? 2 cs
  let rest ← skipMark? ':' rest
  let (minute, rest) ← readField? 2 rest
  if hour ≤ 23 && minute ≤ 59 then some (hour, minute, rest) else none

/-- A time of day, `hour:minute:second` and an optional fraction. -/
def readTime? (cs : List Char) : Option (TimeOfDay × List Char) := do
  let (hour, minute, rest) ← readClock? cs
  let rest ← skipMark? ':' rest
  let (second, rest) ← readField? 2 rest
  if second ≤ 60 then
    let (fraction, rest) := readFraction rest
    some (⟨hour, minute, second, fraction⟩, rest)
  else none

/-- A distance from universal time, if one follows. -/
def readOffset (cs : List Char) : Option Offset × List Char :=
  match cs with
  | [] => (none, cs)
  | c :: rest =>
    if c = 'Z' || c = 'z' then (some .universal, rest)
    else if c = '+' || c = '-' then
      match readClock? rest with
      | some (hour, minute, rest) =>
        let minutes : Int := hour * 60 + minute
        (some (.ahead (if c = '-' then -minutes else minutes)), rest)
      | none => (none, cs)
    else (none, cs)

/-- The time and the offset that complete a date, after a mark between the two. -/
def readAfterDate (date : Date) (cs : List Char) : Moment × List Char :=
  match cs with
  | [] => (⟨some date, none, none⟩, cs)
  | c :: rest =>
    if c = 'T' || c = 't' || c = ' ' then
      match readTime? rest with
      | some (time, rest) =>
        let (offset, rest) := readOffset rest
        (⟨some date, some time, offset⟩, rest)
      | none => (⟨some date, none, none⟩, cs)
    else (⟨some date, none, none⟩, cs)

/-- The moment that a text begins with, and the rest. -/
def read? (cs : List Char) : Option (Moment × List Char) :=
  match readDate? cs with
  | some (date, rest) => some (readAfterDate date rest)
  | none => (readTime? cs).map fun p => (⟨none, some p.1, none⟩, p.2)

/-- A number in at least `width` digits. -/
def padded (width n : Nat) : String :=
  let digits := (toString n).toList
  String.ofList (List.replicate (width - digits.length) '0' ++ digits)

/-- A fraction of a second without the zeros at its end. -/
def fractionText (nanosecond : Nat) : String :=
  if nanosecond = 0 then ""
  else
    let digits := (padded 9 nanosecond).toList
    "." ++ String.ofList (digits.reverse.dropWhile (· = '0')).reverse

/-- The one written form of a date. -/
def dateText (d : Date) : String :=
  padded 4 d.year ++ "-" ++ padded 2 d.month ++ "-" ++ padded 2 d.day

/-- The one written form of a time of day. -/
def timeText (t : TimeOfDay) : String :=
  padded 2 t.hour ++ ":" ++ padded 2 t.minute ++ ":" ++ padded 2 t.second
    ++ fractionText t.nanosecond

/-- The one written form of a distance from universal time. -/
def offsetText : Offset → String
  | .universal => "Z"
  | .ahead minutes =>
    (if minutes < 0 then "-" else "+") ++ padded 2 (minutes.natAbs / 60) ++ ":"
      ++ padded 2 (minutes.natAbs % 60)

/-- The one written form of a moment. -/
def text (m : Moment) : String :=
  (m.date?.map dateText).getD ""
    ++ (if m.date?.isSome && m.time?.isSome then "T" else "")
    ++ (m.time?.map timeText).getD ""
    ++ (m.offset?.map offsetText).getD ""

end Moment

end MarkupRules
