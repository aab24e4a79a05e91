/-
# A value made when it is first needed

A cache is empty until a construction succeeds; from then on it holds what was made. A
construction that fails leaves the cache as it was, so that a later one may succeed.

Key definitions: `Cache`, `Cache.getOrMake`.
-/

namespace MarkupRules

/-- At most one value, with the number of constructions that succeeded. -/
structure Cache (α : Type) where
  /-- The value, once there is one. -/
  slot : Option α
  /-- How many constructions succeeded. -/
  constructions : Nat

namespace Cache

variable {ε α : Type}

/-- A cache without a value. -/
def empty : Cache α := ⟨none, 0⟩

/-- Whether there is a value. -/
def isInitialized (c : Cache α) : Bool :=
  c.slot.isSome

/-- What came of asking for a value. -/
structure Answer (ε α : Type) where
  /-- The value, or why it could not be made. -/
  result : Except ε α
  /-- Whether a construction was tried. -/
  ran : Bool

/-- The value, which is made if there is none yet. -/
def getOrMake (c : Cache α) (make : Unit → Except ε α) : Cache α × Answer ε α :=
  match c.slot with
  | some a => (c, ⟨.ok a, false⟩)
  | none =>
    match make () with
    | .ok a => (⟨some a, c.constructions + 1⟩, ⟨.ok a, true⟩)
    | .error e => (c, ⟨.error e, true⟩)

end Cache

end MarkupRules
