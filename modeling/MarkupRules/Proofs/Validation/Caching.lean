/-
# What a cache holds

Calls on a cache may come in any order, and each construction may succeed or fail. A cache holds
the value of the first construction that succeeds: up to then every call that needs a value tries to
make one, and from then on no call does. So after any calls a cache is told by that one value, and
so is the reply to the next call.

Key definitions: `Cache.Call`, `Cache.perform`, `Cache.after`, `Cache.firstMade`, `Cache.holding`.

Key theorems: `Cache.perform_holding`, `Cache.after_holding`, `Cache.replies_holding`,
`Cache.first_success_is_kept`.
-/
import MarkupRules.Validation.Cache

namespace MarkupRules.Cache

variable {ε α : Type}

/-! ### Calls and replies -/

/-- A call on a cache. -/
inductive Call (ε α : Type) where
  /-- Asks for the value, with what a construction would come to. -/
  | getOrMake (outcome : Except ε α)
  /-- Asks for the value only if there is one. -/
  | get
  /-- Asks whether there is a value. -/
  | isInitialized
  /-- Asks how many constructions succeeded. -/
  | constructions

/-- The reply to a call. -/
inductive Reply (ε α : Type) where
  /-- The value or why there is none, and whether a construction was tried. -/
  | answer (a : Answer ε α)
  /-- The value, if there is one. -/
  | value (v : Option α)
  /-- Whether there is a value. -/
  | flag (b : Bool)
  /-- A number of constructions. -/
  | count (n : Nat)

/-- The cache that a call leaves behind, and the reply. -/
def perform (c : Cache α) : Call ε α → Cache α × Reply ε α
  | .getOrMake outcome =>
    let r := c.getOrMake fun _ => outcome
    (r.1, .answer r.2)
  | .get => (c, .value c.slot)
  | .isInitialized => (c, .flag c.isInitialized)
  | .constructions => (c, .count c.constructions)

/-- The cache after some calls. -/
def after (c : Cache α) (calls : List (Call ε α)) : Cache α :=
  calls.foldl (fun c call => (c.perform call).1) c

/-- The replies to some calls in order. -/
def replies : Cache α → List (Call ε α) → List (Reply ε α)
  | _, [] => []
  | c, call :: rest => (c.perform call).2 :: replies (c.perform call).1 rest

/-! ### The first value -/

/-- What comes of a call if it tries a construction, unless that fails. -/
def Call.made? : Call ε α → Option α
  | .getOrMake (.ok a) => some a
  | _ => none

/-- The value of the first construction among some calls that succeeds. -/
def firstMade (calls : List (Call ε α)) : Option α :=
  calls.findSome? Call.made?

theorem firstMade_cons (call : Call ε α) (calls : List (Call ε α)) :
    firstMade (call :: calls) = call.made?.or (firstMade calls) := by
  unfold firstMade
  rw [List.findSome?_cons]
  cases call.made? <;> rfl

theorem firstMade_append (calls later : List (Call ε α)) :
    firstMade (calls ++ later) = (firstMade calls).or (firstMade later) :=
  List.findSome?_append

theorem firstMade_eq_none_iff {calls : List (Call ε α)} :
    firstMade calls = none ↔ ∀ call ∈ calls, call.made? = none :=
  List.findSome?_eq_none_iff

/-- A cache with the given value, made by one construction, or without any. -/
def holding (made : Option α) : Cache α :=
  ⟨made, if made.isSome then 1 else 0⟩

/-- The reply to a call on a cache with the given value or none. -/
def replyTo (made : Option α) : Call ε α → Reply ε α
  | .getOrMake outcome => .answer ⟨made.elim outcome .ok, made.isNone⟩
  | .get => .value made
  | .isInitialized => .flag made.isSome
  | .constructions => .count (if made.isSome then 1 else 0)

theorem getOrMake_holding (made : Option α) (make : Unit → Except ε α) :
    (holding made).getOrMake make =
      (holding (made.or (make ()).toOption), ⟨made.elim (make ()) .ok, made.isNone⟩) := by
  cases made with
  | some a => rfl
  | none =>
    unfold getOrMake
    cases make () <;> simp [holding, Except.toOption]

/-- A call leaves a cache with the value that was there, or else with what the call makes. -/
theorem perform_holding (made : Option α) (call : Call ε α) :
    (holding made).perform call = (holding (made.or call.made?), replyTo made call) := by
  cases call with
  | getOrMake outcome =>
    have houtcome : outcome.toOption = (Call.getOrMake outcome).made? := by
      cases outcome <;> rfl
    show (((holding made).getOrMake fun _ => outcome).1,
      Reply.answer ((holding made).getOrMake fun _ => outcome).2) = _
    rw [getOrMake_holding, houtcome]
    rfl
  | get => exact congrArg (fun made' => (holding made', Reply.value made)) Option.or_none.symm
  | isInitialized =>
    exact congrArg (fun made' => (holding made', Reply.flag made.isSome)) Option.or_none.symm
  | constructions =>
    exact congrArg (fun made' => (holding made', replyTo made .constructions)) Option.or_none.symm

/-! ### Histories -/

theorem after_holding (made : Option α) (calls : List (Call ε α)) :
    (holding made).after calls = holding (made.or (firstMade calls)) := by
  induction calls generalizing made with
  | nil => exact congrArg holding Option.or_none.symm
  | cons call calls ih =>
    calc (holding made).after (call :: calls)
        = ((holding made).perform call).1.after calls := rfl
      _ = (holding (made.or call.made?)).after calls := by rw [perform_holding]
      _ = holding ((made.or call.made?).or (firstMade calls)) := ih _
      _ = holding (made.or (firstMade (call :: calls))) := by rw [firstMade_cons, Option.or_assoc]

/-- The reply to a call is told by the first value made up to then. -/
theorem replies_holding (made : Option α) (calls : List (Call ε α)) (i : Nat) :
    ((holding made).replies calls)[i]? =
      calls[i]?.map (replyTo (made.or (firstMade (calls.take i)))) := by
  induction calls generalizing made i with
  | nil => rfl
  | cons call calls ih =>
    unfold replies
    rw [perform_holding]
    cases i with
    | zero =>
      show some (replyTo made call) = some (replyTo (made.or none) call)
      rw [Option.or_none]
    | succ i =>
      rw [List.getElem?_cons_succ, List.getElem?_cons_succ, List.take_succ_cons, ih,
        firstMade_cons, Option.or_assoc]

/-- The history of a cache that starts empty. A call for the value tries a construction exactly if
no earlier one succeeded, and then gives what comes of it; all later calls get the first value that
was made, whatever their own construction would come to. A failure leaves the cache as it was, a
success fills it for good. It has a value exactly if one construction succeeded, and otherwise none
did. -/
theorem first_success_is_kept (calls : List (Call ε α)) :
    (∀ i, (empty.replies calls)[i]? = calls[i]?.map (replyTo (firstMade (calls.take i)))) ∧
    (∀ make : Unit → Except ε α, ((empty.after calls).getOrMake make).2 =
      ⟨(firstMade calls).elim (make ()) .ok, (firstMade calls).isNone⟩) ∧
    (∀ make : Unit → Except ε α, ((empty.after calls).getOrMake make).2.ran ↔
      ∀ call ∈ calls, call.made? = none) ∧
    (∀ e, ((empty.after calls).getOrMake fun _ => (.error e : Except ε α)).1 =
      empty.after calls) ∧
    (∀ later : List (Call ε α), (empty.after (calls ++ later)).slot =
      (firstMade calls).or (firstMade later)) ∧
    ((empty.after calls).isInitialized ↔ (empty.after calls).constructions = 1) ∧
    (empty.after calls).constructions ≤ 1 := by
  have hempty : (empty : Cache α) = holding none := rfl
  have hafter : ∀ cs : List (Call ε α), empty.after cs = holding (firstMade cs) := by
    intro cs
    rw [hempty, after_holding, Option.none_or]
  have hanswer : ∀ make : Unit → Except ε α, ((empty.after calls).getOrMake make).2 =
      ⟨(firstMade calls).elim (make ()) .ok, (firstMade calls).isNone⟩ := by
    intro make
    rw [hafter, getOrMake_holding]
  refine ⟨fun i => ?_, hanswer, fun make => ?_, fun e => ?_, fun later => ?_, ?_, ?_⟩
  · rw [hempty, replies_holding, Option.none_or]
  · rw [hanswer, ← firstMade_eq_none_iff, Option.isNone_iff_eq_none]
  · rw [hafter, getOrMake_holding]
    show holding ((firstMade calls).or none) = _
    rw [Option.or_none]
  · rw [hafter, firstMade_append]
    rfl
  · rw [hafter]
    cases firstMade calls <;> simp [holding, isInitialized]
  · rw [hafter]
    cases firstMade calls <;> simp [holding]

example : empty.replies [.getOrMake (.error "broken"), .get, .getOrMake (.ok 1),
    .getOrMake (.ok 2), .constructions] =
      [.answer ⟨.error "broken", true⟩, .value none, .answer ⟨.ok 1, true⟩,
        .answer ⟨.ok 1, false⟩, .count 1] := rfl

end MarkupRules.Cache
