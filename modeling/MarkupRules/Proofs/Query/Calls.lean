/-
# Calls

A call is looked up by its name twice: when an expression is compiled, among the functions of the
dialect, and when it is evaluated, among all functions. No two functions have the same name, so
that a call that was checked finds the same function again. It has all the arguments that the
function asks for, and only the type of an argument can be wrong.

Key definitions: `Callable`, `Builtin.reads`.
Key theorems: `lookup?_eq_some_iff`, `function?_eq_some_iff`, `checkCall_eq_ok_iff`,
`Callable.found`, `Index.call_error`, `Index.call_error_of_callable`.
-/
import MarkupRules.Proofs.Steps
import MarkupRules.Query.Function
import MarkupRules.Query.Parser
import Mathlib.Data.List.Nodup

namespace MarkupRules.Query

/-- A dialect has a function of that name, and it takes that number of arguments. -/
def Callable (dialect : Dialect) (name : String) (given : Nat) : Prop :=
  ∃ s ∈ library, s.label = name ∧ (s.modernOnly = true → dialect = .modern) ∧
    s.least ≤ given ∧ ∀ most, s.most = some most → given ≤ most

/-! ### Looking functions up -/

/-- No two functions have the same name. -/
theorem library_inj {s t : Signature} (hs : s ∈ library) (ht : t ∈ library)
    (h : s.label = t.label) : s = t :=
  List.inj_on_of_nodup_map (by decide : (library.map Signature.label).Nodup) hs ht h

theorem Signature.isIn_iff {s : Signature} {dialect : Dialect} :
    s.isIn dialect = true ↔ (s.modernOnly = true → dialect = .modern) := by
  cases hmodern : s.modernOnly <;> simp [isIn, hmodern]

theorem Signature.accepts_iff {s : Signature} {given : Nat} :
    s.accepts given = true ↔ s.least ≤ given ∧ ∀ most, s.most = some most → given ≤ most := by
  cases hmost : s.most <;> simp [accepts, hmost]

/-- A search by name, under any condition beside it, finds the function of that name if it meets
the condition. -/
theorem find?_library_eq_some_iff {name : String} {meets : Signature → Bool} {s : Signature} :
    (library.find? fun t => t.label == name && meets t) = some s ↔
      s ∈ library ∧ s.label = name ∧ meets s = true := by
  constructor
  · intro h
    have hfound := List.find?_some h
    simp only [Bool.and_eq_true, beq_iff_eq] at hfound
    exact ⟨List.mem_of_find?_eq_some h, hfound⟩
  · rintro ⟨hs, rfl, hmeets⟩
    have hsome : (library.find? fun t => t.label == s.label && meets t).isSome = true :=
      List.find?_isSome.2 ⟨s, hs, by simp [hmeets]⟩
    obtain ⟨t, ht⟩ := Option.isSome_iff_exists.1 hsome
    have hfound := List.find?_some ht
    simp only [Bool.and_eq_true, beq_iff_eq] at hfound
    rw [ht, library_inj (List.mem_of_find?_eq_some ht) hs hfound.1]

/-- A dialect finds a function by its name if it has it. -/
theorem lookup?_eq_some_iff {name : String} {dialect : Dialect} {s : Signature} :
    lookup? name dialect = some s ↔ s ∈ library ∧ s.label = name ∧ s.isIn dialect = true :=
  find?_library_eq_some_iff

/-- A function is found by its name, whichever dialect has it. -/
theorem function?_eq_some_iff {name : String} {s : Signature} :
    function? name = some s ↔ s ∈ library ∧ s.label = name := by
  unfold function?
  simpa only [Bool.and_true, and_true] using @find?_library_eq_some_iff name (fun _ => true) s

/-- What a dialect finds is found without it. -/
theorem function?_of_lookup? {name : String} {dialect : Dialect} {s : Signature}
    (h : lookup? name dialect = some s) : function? name = some s :=
  have ⟨hs, hlabel, _⟩ := lookup?_eq_some_iff.1 h
  function?_eq_some_iff.2 ⟨hs, hlabel⟩

theorem checkCall_eq_ok_iff {name : String} {given : Nat} {dialect : Dialect} :
    checkCall name given dialect = .ok () ↔ Callable dialect name given := by
  unfold checkCall Callable
  constructor
  · intro h
    split at h
    · cases h
    · next s hs =>
      split at h
      · next haccepts =>
        obtain ⟨hmem, hlabel, hin⟩ := lookup?_eq_some_iff.1 hs
        exact ⟨s, hmem, hlabel, Signature.isIn_iff.1 hin, Signature.accepts_iff.1 haccepts⟩
      · cases h
  · rintro ⟨s, hmem, hlabel, hin, haccepts⟩
    rw [lookup?_eq_some_iff.2 ⟨hmem, hlabel, Signature.isIn_iff.2 hin⟩]
    exact if_pos (Signature.accepts_iff.2 haccepts)

/-- No function has a label in front of its name. -/
theorem not_callable_labelled {dialect : Dialect} {label localPart : String} {given : Nat} :
    ¬ Callable dialect (label ++ ":" ++ localPart) given := by
  rintro ⟨s, hs, hlabel, -⟩
  have hcolon : ∀ s ∈ library, ':' ∉ s.label.toList := by decide
  exact hcolon s hs (by simp [hlabel])

/-- No function is called by an asterisk or by the name of a kind of node. -/
theorem Callable.name_ne {dialect : Dialect} {name : String} {given : Nat}
    (h : Callable dialect name given) : name ≠ "*" ∧ isNodeType name = false := by
  obtain ⟨s, hs, rfl, -⟩ := h
  have hall : ∀ s ∈ library, s.label ≠ "*" ∧ isNodeType s.label = false := by decide
  exact hall s hs

/-! ### Calling them -/

/-- How many arguments a function reads without asking whether they are there. -/
def Builtin.reads : Builtin → Nat
  | .last | .position | .localName | .namespaceUri | .name | .string | .concat | .stringLength
  | .normalizeSpace | .yes | .no | .number => 0
  | .startsWith | .contains | .substringBefore | .substringAfter | .substring | .endsWith => 2
  | .translate => 3
  | _ => 1

/-- A call that was checked finds the function that the dialect has, and every argument that this
function reads is there. -/
theorem Callable.found {dialect : Dialect} {name : String} {given : Nat}
    (h : Callable dialect name given) : ∃ s, lookup? name dialect = some s ∧
      function? name = some s ∧ s.builtin.reads ≤ given := by
  obtain ⟨s, hs, hlabel, hmodern, hleast, -⟩ := h
  have hlookup : lookup? name dialect = some s :=
    lookup?_eq_some_iff.2 ⟨hs, hlabel, Signature.isIn_iff.2 hmodern⟩
  have hall : ∀ s ∈ library, s.builtin.reads ≤ s.least := by decide
  exact ⟨s, hlookup, function?_of_lookup? hlookup, Nat.le_trans (hall s hs) hleast⟩

theorem map_asNodes_error {β : Type} {v : Value} {f : List Place → β} {cause : QueryError}
    (h : (asNodes v).map f = .error cause) : ∃ found, cause = .notNodes found := by
  cases v <;> cases h
  all_goals exact ⟨_, rfl⟩

namespace Index

variable {ix : Index} {focus : Focus} {vs : List Value} {cause : QueryError}

theorem map_nameArg_error {β : Type} {f : Option Markup.Name → β}
    (h : (ix.nameArg focus vs).map f = .error cause) : ∃ found, cause = .notNodes found := by
  cases vs with
  | nil => cases h
  | cons v vs =>
    cases v <;> cases h
    all_goals exact ⟨_, rfl⟩

/-- A function complains about the type of an argument, or that one it reads is missing. -/
theorem apply_error {f : Builtin} (h : ix.apply f focus vs = .error cause) :
    (∃ found, cause = .notNodes found) ∨
      (cause = .arity f.label "" vs.length ∧ vs.length < f.reads) := by
  cases f
  case localName | namespaceUri | name =>
    have hname : (ix.nameArg focus vs).map _ = .error cause := h
    exact .inl (map_nameArg_error hname)
  case count | sum =>
    cases vs with
    | nil =>
      cases h
      exact .inr ⟨rfl, Nat.zero_lt_one⟩
    | cons v more => exact .inl (map_asNodes_error h)
  -- With the arguments it reads, each of the others has a value.
  all_goals
    rcases vs with _ | ⟨a, _ | ⟨b, _ | ⟨c, more⟩⟩⟩
    all_goals
      cases h
      try exact .inr ⟨rfl, by simp [Builtin.reads]⟩

theorem call_eq_apply {name : String} {s : Signature} (h : function? name = some s) :
    ix.call name focus vs = ix.apply s.builtin focus vs := by
  rw [call, h]

/-- A call complains that there is no function of its name, or of what the function finds wrong
with the arguments. -/
theorem call_error {name : String} (h : ix.call name focus vs = .error cause) :
    (cause = .unknownFunction name ∧ function? name = none) ∨
      ∃ s, function? name = some s ∧ ((∃ found, cause = .notNodes found) ∨
        (cause = .arity s.builtin.label "" vs.length ∧ vs.length < s.builtin.reads)) := by
  unfold call at h
  split at h
  · next s hs => exact .inr ⟨s, hs, apply_error h⟩
  · next hnone =>
    cases h
    exact .inl ⟨rfl, hnone⟩

/-- A call that was checked only complains about the type of an argument. -/
theorem call_error_of_callable {dialect : Dialect} {name : String}
    (hcallable : Callable dialect name vs.length) (h : ix.call name focus vs = .error cause) :
    ∃ found, cause = .notNodes found := by
  obtain ⟨s, -, hs, hreads⟩ := hcallable.found
  rw [call_eq_apply hs] at h
  rcases apply_error h with hnodes | ⟨-, hmissing⟩
  · exact hnodes
  · exact absurd hreads (Nat.not_le_of_lt hmissing)

end Index

end MarkupRules.Query
