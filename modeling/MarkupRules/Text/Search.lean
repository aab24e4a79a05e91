/-
# Finding one text inside another

All questions about parts of a text go through one search for the first occurrence: it splits
the text into what stands before and what stands after the text looked for. `splitAtFirst?`
compares at every position. `locate?` gives the same answer for long texts: it lets a window
slide over the text and compares only where the fingerprint of the window is the right one.

Key definitions: `dropStart?`, `splitAtFirst?`, `locate?`, and on strings `contains`, `before`,
`after`.

Key theorems: `append_of_dropStart?` and `append_of_splitAtFirst?`, the parts found compose to
the text searched; `locate?_eq`, both searches agree.
-/
import MarkupRules.Text.Fingerprint

namespace MarkupRules.Text

/-- What is left of a text after `start`, if it begins with `start`. -/
def dropStart? : (start text : List Char) → Option (List Char)
  | [], text => some text
  | _ :: _, [] => none
  | s :: start, c :: text => if s = c then dropStart? start text else none

theorem append_of_dropStart? {start text rest : List Char}
    (h : dropStart? start text = some rest) : text = start ++ rest := by
  induction start generalizing text with
  | nil => simpa [dropStart?] using h
  | cons s start ih =>
    cases text with
    | nil => simp [dropStart?] at h
    | cons c text =>
      by_cases hc : s = c
      · subst hc
        simp only [dropStart?, if_pos] at h
        simp [ih h]
      · simp [dropStart?, hc] at h

/-- The parts of a text before and after the first occurrence of `needle`. -/
def splitAtFirst? (needle : List Char) : List Char → Option (List Char × List Char)
  | [] => (dropStart? needle []).map fun rest => ([], rest)
  | c :: text =>
    match dropStart? needle (c :: text) with
    | some rest => some ([], rest)
    | none => (splitAtFirst? needle text).map fun p => (c :: p.1, p.2)

theorem append_of_splitAtFirst? {needle text before after : List Char}
    (h : splitAtFirst? needle text = some (before, after)) :
    text = before ++ (needle ++ after) := by
  induction text generalizing before with
  | nil =>
    simp only [splitAtFirst?, Option.map_eq_some_iff, Prod.mk.injEq] at h
    obtain ⟨rest, hrest, rfl, rfl⟩ := h
    simpa using append_of_dropStart? hrest
  | cons c text ih =>
    rw [splitAtFirst?] at h
    split at h
    · next rest hrest =>
      simp only [Option.some.injEq, Prod.mk.injEq] at h
      obtain ⟨rfl, rfl⟩ := h
      simpa using append_of_dropStart? hrest
    · simp only [Option.map_eq_some_iff, Prod.mk.injEq] at h
      obtain ⟨p, hp, rfl, rfl⟩ := h
      simp [ih hp]

theorem dropStart?_append (start rest : List Char) :
    dropStart? start (start ++ rest) = some rest := by
  induction start with
  | nil => rfl
  | cons s start ih => simp [dropStart?, ih]

theorem splitAtFirst?_eq_none {needle text : List Char} (h : text.length < needle.length) :
    splitAtFirst? needle text = none := by
  cases hs : splitAtFirst? needle text with
  | none => rfl
  | some p =>
    have := congrArg List.length (append_of_splitAtFirst? hs)
    simp only [List.length_append] at this
    omega

/-- Searches from a window on: `h` is its fingerprint, `seen` what stands before it, last
character first, `text` begins with the window, and `ahead` is what comes behind it. -/
def slideTo (needle : List Char) (target w : UInt64) :
    UInt64 → List Char → List Char → List Char → Option (List Char × List Char)
  | h, seen, text, ahead =>
    match if h = target then dropStart? needle text else none with
    | some rest => some (seen.reverse, rest)
    | none =>
      match text, ahead with
      | c :: text, next :: ahead =>
        slideTo needle target w (slide w h c next) (c :: seen) text ahead
      | _, _ => none

/-- The parts of a text before and after the first occurrence of `needle`. -/
def locate? (needle text : List Char) : Option (List Char × List Char) :=
  let window := text.take needle.length
  slideTo needle (fingerprint needle) (weight needle) (fingerprint window) [] text
    (text.drop needle.length)

/-- A window without the right fingerprint does not show what is looked for. -/
theorem dropStart?_if_fingerprint {needle window ahead : List Char}
    (hlen : window.length = needle.length) :
    (if fingerprint window = fingerprint needle then dropStart? needle (window ++ ahead)
      else none) = dropStart? needle (window ++ ahead) := by
  cases hd : dropStart? needle (window ++ ahead) with
  | none => simp
  | some rest => simp [(List.append_inj (append_of_dropStart? hd) hlen).1]

theorem splitAtFirst?_of_dropStart? {needle text rest : List Char}
    (h : dropStart? needle text = some rest) : splitAtFirst? needle text = some ([], rest) := by
  cases text with
  | nil => simp [splitAtFirst?, h]
  | cons c text => simp [splitAtFirst?, h]

theorem splitAtFirst?_cons {needle text : List Char} {c : Char}
    (h : dropStart? needle (c :: text) = none) :
    splitAtFirst? needle (c :: text) =
      (splitAtFirst? needle text).map fun p => (c :: p.1, p.2) := by
  simp [splitAtFirst?, h]

theorem slideTo_eq {needle window : List Char} (hlen : window.length = needle.length)
    (seen ahead : List Char) :
    slideTo needle (fingerprint needle) (weight needle) (fingerprint window) seen
        (window ++ ahead) ahead =
      (splitAtFirst? needle (window ++ ahead)).map fun p => (seen.reverse ++ p.1, p.2) := by
  -- By induction on what the window has not come to yet. The fingerprint that is handed on is
  -- that of the window, before and after a move.
  induction ahead generalizing window seen with
  | nil =>
    unfold slideTo
    rw [dropStart?_if_fingerprint hlen]
    cases hd : dropStart? needle (window ++ []) with
    | some rest =>
      rw [splitAtFirst?_of_dropStart? hd]
      simp
    | none =>
      cases window with
      | nil =>
        cases needle with
        | nil => simp [dropStart?] at hd
        | cons n needle => simp at hlen
      | cons c window =>
        have hshort : (window ++ []).length < needle.length := by
          simp at hlen ⊢
          omega
        simp only [List.cons_append] at hd ⊢
        rw [splitAtFirst?_cons hd, splitAtFirst?_eq_none hshort]
        rfl
  | cons next ahead ih =>
    unfold slideTo
    rw [dropStart?_if_fingerprint hlen]
    cases hd : dropStart? needle (window ++ next :: ahead) with
    | some rest =>
      rw [splitAtFirst?_of_dropStart? hd]
      simp
    | none =>
      cases window with
      | nil =>
        cases needle with
        | nil => simp [dropStart?] at hd
        | cons n needle => simp at hlen
      | cons c window =>
        have hw : weight needle = weightFrom 1 window := by
          apply weightFrom_congr
          simp at hlen ⊢
          omega
        have hnext : (window ++ [next]).length = needle.length := by
          simp at hlen ⊢
          omega
        have hmove := ih hnext (c :: seen)
        simp only [List.append_assoc, List.cons_append, List.nil_append] at hd hmove ⊢
        rw [hw, fingerprint_slide, ← hw, hmove, splitAtFirst?_cons hd]
        simp [Option.map_map, Function.comp_def]

/-- The search with a window finds what the plain search finds. -/
theorem locate?_eq (needle text : List Char) : locate? needle text = splitAtFirst? needle text := by
  by_cases hlen : text.length < needle.length
  · have hahead : text.drop needle.length = [] := List.drop_eq_nil_of_le (by omega)
    have hd : dropStart? needle text = none := by
      cases hd : dropStart? needle text with
      | none => rfl
      | some rest =>
        have := congrArg List.length (append_of_dropStart? hd)
        simp only [List.length_append] at this
        omega
    rw [splitAtFirst?_eq_none hlen, locate?, hahead]
    unfold slideTo
    simp [hd]
  · have hw : (text.take needle.length).length = needle.length := by
      rw [List.length_take]
      omega
    have hall := slideTo_eq hw [] (text.drop needle.length)
    rw [List.take_append_drop] at hall
    simpa [locate?] using hall

/-- What is left of `text` after `start`, if it begins with `start`. -/
def stripStart? (start text : String) : Option String :=
  (dropStart? start.toList text.toList).map String.ofList

/-- Whether `text` begins with `start`. -/
def startsWith (text start : String) : Bool :=
  (dropStart? start.toList text.toList).isSome

/-- Whether `text` ends with `tail`. -/
def endsWith (text tail : String) : Bool :=
  (dropStart? tail.toList.reverse text.toList.reverse).isSome

/-- Whether `needle` occurs in `text`. -/
def contains (text needle : String) : Bool :=
  (locate? needle.toList text.toList).isSome

/-- The part of `text` before the first occurrence of `needle`, empty if there is none. -/
def before (text needle : String) : String :=
  match locate? needle.toList text.toList with
  | some (b, _) => String.ofList b
  | none => ""

/-- The part of `text` after the first occurrence of `needle`, empty if there is none. -/
def after (text needle : String) : String :=
  match locate? needle.toList text.toList with
  | some (_, a) => String.ofList a
  | none => ""

end MarkupRules.Text
