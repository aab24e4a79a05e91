/-
# Fingerprints of a window that slides over a text

A fingerprint is a number computed from the characters of a text: texts with different
fingerprints are different. When a window moves on by one character, the fingerprint of what it
shows follows from the one before, whatever the length of the window. So a search has to compare
characters only where the fingerprints agree.

Key definitions: `fingerprint`, `weight`, `slide`.

Key theorem: `fingerprint_slide`, the fingerprint after a move.
-/

namespace MarkupRules.Text

/-- The base in which the characters of a text are digits. -/
def fingerprintBase : UInt64 := 6364136223846793005

/-- A character as a digit. -/
def digitOf (c : Char) : UInt64 :=
  c.val.toUInt64

/-- The fingerprint of a text that continues one with the fingerprint `h`. -/
def fingerprintFrom (h : UInt64) : List Char → UInt64
  | [] => h
  | c :: cs => fingerprintFrom (h * fingerprintBase + digitOf c) cs

/-- The fingerprint of a text. -/
def fingerprint (cs : List Char) : UInt64 :=
  fingerprintFrom 0 cs

/-- What a digit before as many characters as `cs` has counts, if it counts `w` alone. -/
def weightFrom (w : UInt64) : List Char → UInt64
  | [] => w
  | _ :: cs => weightFrom (w * fingerprintBase) cs

/-- What the first digit of a window as long as `cs` counts. -/
def weight (cs : List Char) : UInt64 :=
  weightFrom 1 cs.tail

/-- The fingerprint of a window after it has lost `first` and gained `next`, if `w` is what its
first digit counts. -/
def slide (w h : UInt64) (first next : Char) : UInt64 :=
  (h - digitOf first * w) * fingerprintBase + digitOf next

theorem fingerprintFrom_append (h : UInt64) (xs ys : List Char) :
    fingerprintFrom h (xs ++ ys) = fingerprintFrom (fingerprintFrom h xs) ys := by
  induction xs generalizing h with
  | nil => rfl
  | cons x xs ih => simp [fingerprintFrom, ih]

theorem weightFrom_congr {xs ys : List Char} (h : xs.length = ys.length) (w : UInt64) :
    weightFrom w xs = weightFrom w ys := by
  induction xs generalizing ys w with
  | nil =>
    cases ys with
    | nil => rfl
    | cons y ys => simp at h
  | cons x xs ih =>
    cases ys with
    | nil => simp at h
    | cons y ys => exact ih (by simpa using h) _

theorem weightFrom_mul (v w : UInt64) (cs : List Char) :
    weightFrom (v * w) cs = v * weightFrom w cs := by
  induction cs generalizing w with
  | nil => rfl
  | cons c cs ih =>
    rw [weightFrom, weightFrom, ← ih]
    congr 1
    grind

theorem fingerprintFrom_eq (h : UInt64) (cs : List Char) :
    fingerprintFrom h cs = h * weightFrom 1 cs + fingerprintFrom 0 cs := by
  induction cs generalizing h with
  | nil => simp [fingerprintFrom, weightFrom]
  | cons c cs ih =>
    have hw : weightFrom (1 * fingerprintBase) cs = fingerprintBase * weightFrom 1 cs := by
      rw [← weightFrom_mul]
      congr 1
    rw [fingerprintFrom, fingerprintFrom, weightFrom, ih, ih (0 * fingerprintBase + digitOf c), hw]
    grind

/-- The fingerprint of a window after it has moved on by one character. -/
theorem fingerprint_slide (first next : Char) (cs : List Char) :
    slide (weightFrom 1 cs) (fingerprint (first :: cs)) first next =
      fingerprint (cs ++ [next]) := by
  have hfirst : fingerprint (first :: cs) = digitOf first * weightFrom 1 cs + fingerprint cs := by
    have h0 : (0 : UInt64) * fingerprintBase + digitOf first = digitOf first := by grind
    rw [fingerprint, fingerprintFrom, h0, fingerprintFrom_eq]
    rfl
  have hlast : fingerprint (cs ++ [next]) = fingerprint cs * fingerprintBase + digitOf next := by
    rw [fingerprint, fingerprintFrom_append]
    rfl
  rw [hlast, slide, hfirst]
  grind

end MarkupRules.Text
