/-
# Catalogues and their histories

A catalogue is changed by entering stages, by switching them on and off and by removing them. What
it then lists and resolves is told by the history of these changes alone: an identifier is there
from the first registration since it was last removed, it stands in the order of those
registrations, and the latest calls for it decide what it resolves to. One step lemma says what each
change does to this; a history follows by induction from its end.

Key definitions: `Catalogue.Change`, `Change.apply`, `Catalogue.after`, `sinceAdded`, `lastCall?`,
`lastStage?`, `Catalogue.Follows`, `Catalogue.Reflects`.

Key theorems: `sinceAdded_concat`, `Follows.apply`, `Catalogue.reflects_history`.
-/
import MarkupRules.Proofs.NamedLists
import MarkupRules.Schema.Catalogue
import Mathlib.Data.List.DropRight

namespace MarkupRules.Schema

namespace Catalogue

/-! ### Changes -/

/-- A call that changes a catalogue. -/
inductive Change where
  /-- Enters a stage that is made anew for all who ask. -/
  | register (id description : String) (stage : Stage)
  /-- Enters a stage that all who ask share. -/
  | registerShared (id : String) (stage : Stage)
  /-- Switches a stage on or off. -/
  | setEnabled (id : String) (isEnabled : Bool)
  /-- Removes a stage. -/
  | unregister (id : String)

namespace Change

/-- The identifier that a call is for. -/
def id : Change → String
  | register id _ _ | registerShared id _ | setEnabled id _ | unregister id => id

/-- The stage that a call enters. -/
def stage? : Change → Option Stage
  | register _ _ stage | registerShared _ stage => some stage
  | setEnabled _ _ | unregister _ => none

/-- Whether a call enters a stage under the identifier. -/
def enters (id : String) (change : Change) : Bool :=
  change.id = id ∧ change.stage?.isSome

/-- Whether a call removes the identifier. -/
def removes (id : String) : Change → Bool
  | unregister other => other = id
  | _ => false

/-- The catalogue after a call. -/
def apply (c : Catalogue) : Change → Catalogue
  | register id description stage => c.register id description stage
  | registerShared id stage => c.registerShared id stage
  | setEnabled id isEnabled => (c.setEnabled id isEnabled).1
  | unregister id => (c.unregister id).1

/-- What stands under its identifier after a call. -/
def entry (old : Option Entry) : Change → Option Entry
  | register _ description stage => some ⟨stage, description, false, true⟩
  | registerShared _ stage => some ⟨stage, stage.name, true, true⟩
  | setEnabled _ isEnabled => old.map fun e => { e with isEnabled }
  | unregister _ => none

/-- The identifiers after a call: one that is new comes last, and one that is there stays in its
place until it is removed. -/
def places (names : List String) : Change → List String
  | register id _ _ | registerShared id _ => if id ∈ names then names else names ++ [id]
  | setEnabled _ _ => names
  | unregister id => names.filter (· ≠ id)

theorem get?_apply (c : Catalogue) (change : Change) (id : String) :
    NamedList.get? (change.apply c) id =
      if id = change.id then change.entry (NamedList.get? c id) else NamedList.get? c id := by
  cases change with
  | register other description stage => exact NamedList.get?_insert c other _ id
  | registerShared other stage => exact NamedList.get?_insert c other _ id
  | unregister other => exact NamedList.get?_erase c other id
  | setEnabled other isEnabled =>
    show NamedList.get? (c.setEnabled other isEnabled).1 id =
      if id = other then (NamedList.get? c id).map (fun e => { e with isEnabled }) else _
    unfold Catalogue.setEnabled
    cases hother : NamedList.get? c other with
    | none =>
      by_cases h : id = other
      · simp [h, hother]
      · simp [h]
    | some e =>
      rw [NamedList.get?_insert]
      by_cases h : id = other
      · simp [h, hother]
      · simp [h]

theorem names_apply (c : Catalogue) (change : Change) :
    (change.apply c).names = change.places c.names := by
  cases change with
  | register id description stage => exact NamedList.names_insert c id _
  | registerShared id stage => exact NamedList.names_insert c id _
  | unregister id => exact NamedList.names_erase c id
  | setEnabled id isEnabled =>
    show (c.setEnabled id isEnabled).1.names = c.names
    unfold Catalogue.setEnabled
    cases hid : NamedList.get? c id with
    | none => rfl
    | some e =>
      have hmem : id ∈ c.names := by
        rw [NamedList.mem_names_iff, hid]
        rfl
      rw [NamedList.names_insert, if_pos hmem]

theorem mem_places_iff {names : List String} {change : Change} {id : String} :
    id ∈ change.places names ↔
      change.removes id = false ∧ (id ∈ names ∨ change.enters id) := by
  cases change with
  | register other | registerShared other =>
    by_cases hother : other ∈ names
    · have hsame : id ∈ names ∨ other = id ↔ id ∈ names :=
        or_iff_left_of_imp fun h => h ▸ hother
      simp [places, removes, enters, Change.id, stage?, hother, hsame]
    · simp [places, removes, enters, Change.id, stage?, hother, eq_comm (b := id)]
  | setEnabled other => simp [places, removes, enters, stage?]
  | unregister other => simp [places, removes, enters, stage?, and_comm, eq_comm (b := id)]

/-- A call adds a new identifier at the end or none at all. -/
theorem places_cases (names : List String) (change : Change) :
    (change.places names = names ++ [change.id] ∧ change.id ∉ names) ∨
      List.Sublist (change.places names) names := by
  cases change with
  | register id | registerShared id =>
    by_cases hid : id ∈ names
    · exact .inr (by simp [places, hid])
    · exact .inl ⟨if_neg hid, hid⟩
  | setEnabled id => exact .inr (List.Sublist.refl names)
  | unregister id => exact .inr List.filter_sublist

end Change

/-- The catalogue after some calls, the earliest first. -/
def after (c : Catalogue) (history : List Change) : Catalogue :=
  history.foldl (fun c change => change.apply c) c

/-! ### What a history says of an identifier -/

/-- The calls since the identifier was last added: from the first that enters it after it was last
removed. -/
def sinceAdded (id : String) (history : List Change) : List Change :=
  (history.rtakeWhile fun change => !change.removes id).dropWhile fun change => !change.enters id

/-- What the latest call says of which something can be read, since the identifier was added. -/
def latest {α : Type} (read : Change → Option α) (id : String) (history : List Change) :
    Option α :=
  ((sinceAdded id history).filterMap read).getLast?

/-- The last call for the identifier since it was added. -/
def lastCall? (id : String) (history : List Change) : Option Change :=
  latest (Option.guard fun change => change.id = id) id history

/-- The stage that was last entered under the identifier since it was added. -/
def lastStage? (id : String) (history : List Change) : Option Stage :=
  latest (fun change => if change.id = id then change.stage? else none) id history

theorem sinceAdded_concat (id : String) (history : List Change) (change : Change) :
    sinceAdded id (history ++ [change]) =
      if change.removes id then []
      else if sinceAdded id history = [] ∧ change.enters id = false then []
      else sinceAdded id history ++ [change] := by
  unfold sinceAdded
  rw [List.rtakeWhile_concat]
  by_cases hremoves : change.removes id
  · simp [hremoves]
  · simp only [hremoves, Bool.not_false, if_true, List.dropWhile_append, List.isEmpty_iff]
    by_cases hnil : (history.rtakeWhile fun change => !change.removes id).dropWhile
        (fun change => !change.enters id) = []
    · by_cases henters : change.enters id <;> simp [hnil, henters]
    · simp [hnil]

/-- As long as an identifier is not removed, the history since it was added grows with each call. -/
theorem sinceAdded_concat_of_ne_nil {id : String} {history : List Change} {change : Change}
    (hremoves : change.removes id = false) (hnil : sinceAdded id history ≠ []) :
    sinceAdded id (history ++ [change]) = sinceAdded id history ++ [change] := by
  simp [sinceAdded_concat, hremoves, hnil]

theorem sinceAdded_concat_of_enters {id : String} {history : List Change} {change : Change}
    (hremoves : change.removes id = false) (henters : change.enters id) :
    sinceAdded id (history ++ [change]) = sinceAdded id history ++ [change] := by
  simp [sinceAdded_concat, hremoves, henters]

theorem sinceAdded_concat_ne_nil_iff {id : String} {history : List Change} {change : Change} :
    sinceAdded id (history ++ [change]) ≠ [] ↔
      change.removes id = false ∧ (sinceAdded id history ≠ [] ∨ change.enters id) := by
  rw [sinceAdded_concat]
  by_cases hremoves : change.removes id
  · simp [hremoves]
  · by_cases henters : change.enters id
    · simp [hremoves, henters]
    · by_cases hnil : sinceAdded id history = [] <;> simp [hremoves, henters, hnil]

theorem latest_concat {α : Type} {read : Change → Option α} {id : String}
    {history : List Change} {change : Change}
    (h : sinceAdded id (history ++ [change]) = sinceAdded id history ++ [change]) :
    latest read id (history ++ [change]) = (read change).or (latest read id history) := by
  unfold latest
  rw [h, List.filterMap_append, List.getLast?_append]
  cases hread : read change <;> simp [hread]

theorem lastCall?_concat {id : String} {history : List Change} {change : Change}
    (h : sinceAdded id (history ++ [change]) = sinceAdded id history ++ [change]) :
    lastCall? id (history ++ [change]) =
      if change.id = id then some change else lastCall? id history := by
  unfold lastCall?
  rw [latest_concat h]
  by_cases hid : change.id = id <;> simp [Option.guard, hid]

theorem lastStage?_concat {id : String} {history : List Change} {change : Change}
    (h : sinceAdded id (history ++ [change]) = sinceAdded id history ++ [change]) :
    lastStage? id (history ++ [change]) =
      (if change.id = id then change.stage? else none).or (lastStage? id history) :=
  latest_concat h

/-! ### What a catalogue says -/

/-- A catalogue whose identifiers, places and entries are those that a history tells. -/
structure Follows (c : Catalogue) (history : List Change) : Prop where
  /-- An identifier is there if it was added. -/
  registered : ∀ id, id ∈ c.names ↔ sinceAdded id history ≠ []
  /-- What was added earlier comes first. -/
  ordered : c.names.Pairwise fun id later =>
    (sinceAdded later history).length < (sinceAdded id history).length
  /-- A stage is switched off if that is the last thing that was done to it. -/
  disabled : ∀ id e, NamedList.get? c id = some e →
    (e.isEnabled = false ↔ lastCall? id history = some (.setEnabled id false))
  /-- A stage is the one entered last. -/
  stage : ∀ id e, NamedList.get? c id = some e → lastStage? id history = some e.stage

theorem follows_empty : Follows empty [] where
  registered id := by simp [empty, NamedList.empty, NamedList.names, sinceAdded]
  ordered := List.Pairwise.nil
  disabled id e h := nomatch h
  stage id e h := nomatch h

namespace Follows

variable {c : Catalogue} {history : List Change}

theorem registered_apply (h : Follows c history) (change : Change) (id : String) :
    id ∈ (change.apply c).names ↔ sinceAdded id (history ++ [change]) ≠ [] := by
  rw [sinceAdded_concat_ne_nil_iff, Change.names_apply, Change.mem_places_iff, h.registered]

/-- What stays listed has a history that grows by the call. -/
theorem sinceAdded_apply (h : Follows c history) {change : Change} {id : String}
    (hid : id ∈ (change.apply c).names) :
    sinceAdded id (history ++ [change]) = sinceAdded id history ++ [change] := by
  have hne := (h.registered_apply change id).1 hid
  obtain ⟨hremoves, hnil | henters⟩ := sinceAdded_concat_ne_nil_iff.1 hne
  · exact sinceAdded_concat_of_ne_nil hremoves hnil
  · exact sinceAdded_concat_of_enters hremoves henters

theorem ordered_apply (h : Follows c history) (change : Change) :
    (change.apply c).names.Pairwise fun id later =>
      (sinceAdded later (history ++ [change])).length <
        (sinceAdded id (history ++ [change])).length := by
  have hlength : ∀ id ∈ (change.apply c).names,
      (sinceAdded id (history ++ [change])).length = (sinceAdded id history).length + 1 := by
    intro id hid
    rw [h.sinceAdded_apply hid, List.length_append, List.length_singleton]
  have hbefore : (change.apply c).names.Pairwise fun id later =>
      (sinceAdded later history).length < (sinceAdded id history).length := by
    rw [Change.names_apply]
    rcases Change.places_cases c.names change with ⟨hplaces, hnew⟩ | hsublist
    · rw [hplaces, List.pairwise_append]
      refine ⟨h.ordered, List.pairwise_singleton _ _, ?_⟩
      intro id hid later hlater
      have hthere : sinceAdded id history ≠ [] := (h.registered id).1 hid
      have hnone : sinceAdded change.id history = [] :=
        not_not.1 fun hne => hnew ((h.registered change.id).2 hne)
      rw [List.mem_singleton.1 hlater, hnone]
      exact List.length_pos_iff.2 hthere
    · exact h.ordered.sublist hsublist
  refine hbefore.imp_of_mem ?_
  intro id later hid hlater hlt
  rw [hlength id hid, hlength later hlater]
  exact Nat.succ_lt_succ hlt

/-- What a call leaves under its own identifier, against the history with it. -/
theorem entry_apply (h : Follows c history) {change : Change} {e : Entry}
    (he : change.entry (NamedList.get? c change.id) = some e) :
    (e.isEnabled = false ↔ change = .setEnabled change.id false) ∧
      change.stage?.or (lastStage? change.id history) = some e.stage := by
  cases change with
  | register id description stage | registerShared id stage =>
    cases he
    simp [Change.stage?]
  | setEnabled id isEnabled =>
    obtain ⟨old, hold, hnew⟩ := Option.map_eq_some_iff.1 he
    cases hnew
    refine ⟨?_, h.stage id old hold⟩
    simp [Change.id]
  | unregister id => cases he

/-- A call keeps a catalogue in step with its history. -/
theorem apply (h : Follows c history) (change : Change) :
    Follows (change.apply c) (history ++ [change]) := by
  have hgrows : ∀ {id e}, NamedList.get? (change.apply c) id = some e →
      sinceAdded id (history ++ [change]) = sinceAdded id history ++ [change] := by
    intro id e he
    have hmem : id ∈ (change.apply c).names := by
      rw [NamedList.mem_names_iff, he]
      rfl
    exact h.sinceAdded_apply hmem
  -- A call changes what stands under its own identifier; the other entries are as they were.
  refine ⟨h.registered_apply change, h.ordered_apply change, ?_, ?_⟩
  · intro id e he
    rw [lastCall?_concat (hgrows he)]
    rw [Change.get?_apply] at he
    by_cases hid : id = change.id
    · subst hid
      rw [if_pos rfl] at he
      rw [if_pos rfl, Option.some_inj]
      exact (h.entry_apply he).1
    · rw [if_neg hid] at he
      rw [if_neg (Ne.symm hid)]
      exact h.disabled id e he
  · intro id e he
    rw [lastStage?_concat (hgrows he)]
    rw [Change.get?_apply] at he
    by_cases hid : id = change.id
    · subst hid
      rw [if_pos rfl] at he
      rw [if_pos rfl]
      exact (h.entry_apply he).2
    · rw [if_neg hid] at he
      rw [if_neg (Ne.symm hid), Option.none_or]
      exact h.stage id e he

theorem after (h : Follows c history) (later : List Change) :
    Follows (c.after later) (history ++ later) := by
  induction later generalizing c history with
  | nil =>
    rw [List.append_nil]
    exact h
  | cons change later ih =>
    have hlater := ih (h.apply change)
    rw [List.append_assoc] at hlater
    exact hlater

end Follows

/-! ### What a history gives -/

/-- What a catalogue lists and resolves after its history. -/
structure Reflects (c : Catalogue) (history : List Change) : Prop where
  /-- No identifier is listed twice. -/
  nodup : c.names.Nodup
  /-- An identifier is listed from the first registration since it was last removed. -/
  registered : ∀ id, id ∈ c.names ↔ sinceAdded id history ≠ []
  /-- Identifiers are listed in the order in which they were added: of two ends of one history the
  longer began earlier. -/
  ordered : c.names.Pairwise fun id later =>
    (sinceAdded later history).length < (sinceAdded id history).length
  /-- One more call leaves the identifiers in their places; a new one comes last. -/
  places : ∀ change : Change, (change.apply c).names = change.places c.names
  /-- An identifier is not found if it is not listed. -/
  notFound_iff : ∀ id, c.resolve id = .error (.notFound id) ↔ id ∉ c.names
  /-- A stage is disabled if it was last switched off. -/
  disabled_iff : ∀ id, c.resolve id = .error (.disabled id) ↔
    id ∈ c.names ∧ lastCall? id history = some (.setEnabled id false)
  /-- Otherwise the stage is the one that was registered last. -/
  found : ∀ id, id ∈ c.names → lastCall? id history ≠ some (.setEnabled id false) →
    ∃ stage, lastStage? id history = some stage ∧ c.resolve id = .ok stage
  /-- A stage is created exactly if it is resolved. -/
  create_iff : ∀ id stage, c.create? id = some stage ↔ c.resolve id = .ok stage
  /-- Switching says whether the identifier is listed. -/
  setEnabled_reply : ∀ id isEnabled, (c.setEnabled id isEnabled).2 = decide (id ∈ c.names)
  /-- Removing says whether the identifier was listed. -/
  unregister_reply : ∀ id, (c.unregister id).2 = decide (id ∈ c.names)

theorem create?_eq_some_iff (c : Catalogue) (id : String) (stage : Stage) :
    c.create? id = some stage ↔ c.resolve id = .ok stage := by
  unfold create? resolve
  cases NamedList.get? c id with
  | none => simp
  | some e => cases henabled : e.isEnabled <;> simp [Option.filter, henabled]

theorem setEnabled_snd (c : Catalogue) (id : String) (isEnabled : Bool) :
    (c.setEnabled id isEnabled).2 = decide (id ∈ c.names) := by
  unfold setEnabled
  cases hid : NamedList.get? c id with
  | none => simp [NamedList.mem_names_iff, hid]
  | some e => simp [NamedList.mem_names_iff, hid]

namespace Follows

variable {c : Catalogue} {history : List Change}

theorem reflects (h : Follows c history) : Reflects c history where
  nodup := by
    refine h.ordered.imp ?_
    intro id later hlt heq
    rw [heq] at hlt
    exact Nat.lt_irrefl _ hlt
  registered := h.registered
  ordered := h.ordered
  places := Change.names_apply c
  notFound_iff id := by
    rw [← NamedList.get?_eq_none_iff]
    unfold resolve
    cases NamedList.get? c id with
    | none => simp
    | some e => cases henabled : e.isEnabled <;> simp [henabled]
  disabled_iff id := by
    rw [NamedList.mem_names_iff]
    unfold resolve
    cases hid : NamedList.get? c id with
    | none => simp
    | some e =>
      rw [← h.disabled id e hid]
      cases henabled : e.isEnabled <;> simp [henabled]
  found id hmem hcall := by
    obtain ⟨e, hid⟩ := Option.isSome_iff_exists.1 (NamedList.mem_names_iff.1 hmem)
    have henabled : e.isEnabled = true := by
      have hon : ¬ e.isEnabled = false := fun hoff => hcall ((h.disabled id e hid).1 hoff)
      rwa [Bool.not_eq_false] at hon
    refine ⟨e.stage, h.stage id e hid, ?_⟩
    simp [resolve, hid, henabled]
  create_iff := create?_eq_some_iff c
  setEnabled_reply := setEnabled_snd c
  unregister_reply id := NamedList.contains_eq c id

end Follows

/-- The calls that enter the standard stages. -/
def standardCalls (files : Files) : List Change :=
  [Dialect.legacy, Dialect.modern].flatMap fun dialect =>
    (dialect.stageIds.zip (stagesOf files dialect)).map fun e => .register e.1 e.2.2 e.2.1

/-- The calls that make a catalogue with or without the standard stages. -/
def startCalls (files : Files) (withStandard : Bool) : List Change :=
  if withStandard then standardCalls files else []

/-- A catalogue with or without the standard stages. -/
def start (files : Files) (withStandard : Bool) : Catalogue :=
  if withStandard then standard files else empty

theorem after_standardCalls (files : Files) : empty.after (standardCalls files) = standard files :=
  rfl

theorem after_startCalls (files : Files) (withStandard : Bool) :
    empty.after (startCalls files withStandard) = start files withStandard := by
  cases withStandard with
  | true => exact after_standardCalls files
  | false => rfl

end Catalogue

/-! ### Builders -/

namespace CatalogueBuilder

open Catalogue

/-- A call that configures a builder. -/
inductive Call where
  /-- Says whether the standard stages are wanted. -/
  | includeStandard (withStandard : Bool)
  /-- Adds a stage. -/
  | register (id description : String) (stage : Stage)

namespace Call

/-- The builder after a call. -/
def apply (b : CatalogueBuilder) : Call → CatalogueBuilder
  | includeStandard withStandard => b.includeStandard withStandard
  | register id description stage => b.register id description stage

/-- What a call says of the standard stages. -/
def wish? : Call → Option Bool
  | includeStandard withStandard => some withStandard
  | register _ _ _ => none

/-- The call on a catalogue that enters the same stage. -/
def change? : Call → Option Change
  | includeStandard _ => none
  | register id description stage => some (.register id description stage)

end Call

/-- The builder after some calls. -/
def configured (b : CatalogueBuilder) (calls : List Call) : CatalogueBuilder :=
  calls.foldl (fun b call => call.apply b) b

/-- Whether the standard stages are wanted after some calls; the last wish counts. -/
def wantsStandard (b : CatalogueBuilder) (calls : List Call) : Bool :=
  (calls.filterMap Call.wish?).getLast?.getD b.withStandard

theorem build_eq (b : CatalogueBuilder) (files : Files) :
    b.build files = (start files b.withStandard).merge b.others :=
  rfl

/-- A builder makes the catalogue that its registrations make one after the other. -/
theorem build_configured (b : CatalogueBuilder) (calls : List Call) (files : Files) :
    (b.configured calls).build files =
      Catalogue.after ((start files (b.wantsStandard calls)).merge b.others)
        (calls.filterMap Call.change?) := by
  induction calls generalizing b with
  | nil => exact build_eq b files
  | cons call calls ih =>
    show ((call.apply b).configured calls).build files = _
    rw [ih]
    cases call with
    | includeStandard withStandard =>
      have hwants : (b.includeStandard withStandard).wantsStandard calls =
          b.wantsStandard (.includeStandard withStandard :: calls) := by
        show (calls.filterMap Call.wish?).getLast?.getD withStandard =
          (withStandard :: calls.filterMap Call.wish?).getLast?.getD b.withStandard
        rw [List.getLast?_cons]
        rfl
      rw [← hwants]
      rfl
    | register id description stage =>
      show Catalogue.after (NamedList.merge _ (b.others.register id description stage)) _ = _
      unfold Catalogue.register
      rw [NamedList.merge_insert]
      rfl

end CatalogueBuilder

namespace Catalogue

/-- What a catalogue comes to after any calls, from the empty one or from the standard one. Each
identifier is listed once, in the order in which they were added; it resolves to the stage that was
registered last, unless it was switched off since or is not registered. A builder makes the
catalogue that its registrations make on the one it starts from. -/
theorem reflects_history (files : Files) (withStandard : Bool) (history : List Change) :
    Reflects ((start files withStandard).after history)
      (startCalls files withStandard ++ history) ∧
    ∀ calls : List CatalogueBuilder.Call, (CatalogueBuilder.new.configured calls).build files =
      (start files (CatalogueBuilder.new.wantsStandard calls)).after
        (calls.filterMap CatalogueBuilder.Call.change?) := by
  refine ⟨?_, fun calls => CatalogueBuilder.build_configured .new calls files⟩
  have hstart : Follows (start files withStandard) (startCalls files withStandard) := by
    rw [← after_startCalls]
    exact follows_empty.after _
  exact (hstart.after history).reflects

example (stage : Stage) : (empty.after [.register "a" "" stage, .registerShared "b" stage,
    .register "a" "again" stage, .unregister "a", .setEnabled "b" false,
    .register "a" "" stage]).names = ["b", "a"] := rfl

end Catalogue

end MarkupRules.Schema
