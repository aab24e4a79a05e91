/-
# Patterns for names

A pattern is text in which `?` stands for one character, `*` for any characters, and a set in
brackets for one character in it or, after an exclamation mark, not in it. Two asterisks between
slashes stand for any number of directories. Matching follows the text in all ways at once: a
token takes the list of what may be left of the text to the list of what may be left after it,
so that the effort grows with the product of the two lengths only.

Key definitions: `Wildcard`, `Wildcard.ofText`, `Wildcard.accepts`, `WildcardError`.
-/
import MarkupRules.Text.Search

namespace MarkupRules

/-- What is wrong with a pattern. -/
inductive WildcardFault where
  /-- More than two asterisks stand together. -/
  | asterisks
  /-- Two asterisks share a component of a path with something else. -/
  | component
  /-- A set has no end or nothing in it. -/
  | set
  deriving DecidableEq, Repr

/-- A fault in words. -/
def WildcardFault.message : WildcardFault → String
  | asterisks => "wildcards are either regular `*` or recursive `**`"
  | component => "recursive wildcards must form a single path component"
  | set => "invalid range pattern"

/-- What is wrong with a pattern, and where. -/
structure WildcardError where
  /-- The number of characters before the fault. -/
  position : Nat
  /-- The fault. -/
  fault : WildcardFault
  deriving DecidableEq, Repr

/-- An error in words. -/
def WildcardError.message (e : WildcardError) : String :=
  "Pattern syntax error near position " ++ toString e.position ++ ": " ++ e.fault.message

/-- A part of a pattern. -/
inductive WildcardToken where
  /-- The character itself. -/
  | char (c : Char)
  /-- One character. -/
  | any
  /-- Any characters. -/
  | sequence
  /-- Any number of directories with the slashes after them. -/
  | directories
  /-- One character in a range, or if `negated` one in no range. -/
  | set (negated : Bool) (ranges : List (Char × Char))
  deriving DecidableEq, Repr

/-- A pattern: its tokens in order. -/
structure Wildcard where
  /-- The tokens. -/
  tokens : List WildcardToken
  deriving DecidableEq, Repr

namespace Wildcard

/-- The content of a set after its opening, and what follows its closing bracket. The first
character belongs to the set even if it is a bracket. -/
def splitSet? : List Char → Option (List Char × List Char)
  | [] => none
  | c :: rest => (Text.splitAtFirst? [']'] rest).map fun p => (c :: p.1, p.2)

theorem length_lt_of_splitSet? {cs body after : List Char}
    (h : splitSet? cs = some (body, after)) : after.length < cs.length := by
  cases cs with
  | nil => simp [splitSet?] at h
  | cons c rest =>
    simp only [splitSet?, Option.map_eq_some_iff, Prod.mk.injEq] at h
    obtain ⟨p, hp, -, rfl⟩ := h
    have : rest = p.1 ++ ([']'] ++ p.2) := Text.append_of_splitAtFirst? hp
    simp [this]
    omega

/-- The ranges of a set; a character alone is a range of its own. -/
def rangesOf : List Char → List (Char × Char)
  | a :: '-' :: b :: rest => (a, b) :: rangesOf rest
  | a :: rest => (a, a) :: rangesOf rest
  | [] => []

/-- The tokens of a pattern from `position`. `start` tells that a path component begins here,
and `double` that there are at least two tokens before and the last stands for directories. -/
def tokensOf (position : Nat) (start : Bool) (before : List WildcardToken) (cs : List Char) :
    Except WildcardError (List WildcardToken) :=
  match cs with
  | [] => .ok before.reverse
  | '*' :: '*' :: '*' :: _ => .error ⟨position + 2, .asterisks⟩
  | '*' :: '*' :: rest =>
    let before' :=
      if 1 < before.length && before.head? = some .directories then before
      else .directories :: before
    match rest with
    | [] => if start then .ok before'.reverse else .error ⟨position - 1, .component⟩
    | c :: rest =>
      if !start then .error ⟨position - 1, .component⟩
      else if c = '/' then tokensOf (position + 3) true before' rest
      else .error ⟨position + 2, .component⟩
  | '[' :: '!' :: rest =>
    match h : splitSet? rest with
    | some (body, after) =>
      have := length_lt_of_splitSet? h
      tokensOf (position + body.length + 3) false (.set true (rangesOf body) :: before) after
    | none => .error ⟨position, .set⟩
  | '[' :: rest =>
    match h : splitSet? rest with
    | some (body, after) =>
      have := length_lt_of_splitSet? h
      tokensOf (position + body.length + 2) false (.set false (rangesOf body) :: before) after
    | none => .error ⟨position, .set⟩
  | c :: rest =>
    let token : WildcardToken :=
      if c = '?' then .any else if c = '*' then .sequence else .char c
    tokensOf (position + 1) (c = '/') (token :: before) rest
termination_by cs.length
decreasing_by all_goals simp_all <;> omega

/-- The pattern that a text writes. -/
def ofText (text : String) : Except WildcardError Wildcard :=
  (tokensOf 0 true [] text.toList).map Wildcard.mk

/-- A text and what is left of it after each of its characters. -/
def suffixes : List Char → List (List Char)
  | [] => [[]]
  | c :: rest => (c :: rest) :: suffixes rest

/-- What is left of a text after each of its slashes. -/
def afterSlashes : List Char → List (List Char)
  | [] => []
  | c :: rest => if c = '/' then rest :: afterSlashes rest else afterSlashes rest

/-- What is left of a text after one character that `accept` holds of. -/
def takeOne (accept : Char → Bool) : List Char → Option (List Char)
  | [] => none
  | c :: rest => if accept c then some rest else none

/-- What may be left of a text after a token, given what may be left before it, the longest
first. -/
def advance (rests : List (List Char)) : WildcardToken → List (List Char)
  | .char c => rests.filterMap (takeOne (· = c))
  | .any => rests.filterMap (takeOne fun _ => true)
  | .set negated ranges =>
    rests.filterMap (takeOne fun c => (ranges.any fun r => r.1 ≤ c && c ≤ r.2) != negated)
  | .sequence => ((rests.head?).map suffixes).getD []
  | .directories => rests ++ ((rests.head?).map fun cs => afterSlashes cs ++ [[]]).getD []

/-- Whether a pattern describes a whole text. -/
def accepts (w : Wildcard) (text : String) : Bool :=
  (w.tokens.foldl advance [text.toList]).any List.isEmpty

/-- The character of a token that stands for itself. -/
def literalChar? : WildcardToken → Option Char
  | .char c => some c
  | _ => none

/-- The text of a pattern that describes only itself. -/
def literal? (w : Wildcard) : Option String :=
  (w.tokens.mapM literalChar?).map String.ofList

/-- Whether a pattern is two asterisks alone. -/
def isDirectories (w : Wildcard) : Bool :=
  w.tokens = [.directories]

/-- Whether a pattern begins with a point. -/
def startsWithPoint (w : Wildcard) : Bool :=
  w.tokens.head? = some (.char '.')

end Wildcard

end MarkupRules
