/-
# Merged tables

A table is what its entries come to when they are given one after the other, and merging gives the
entries of one table behind those of another. So tables form a monoid under merging, and collecting
entries takes one list behind another to one table merged into another. Whatever is collected, each
name stands once, at the place of its first entry, and has the value of its last one.

Key definitions: `lastValue?`, `NamedList.Collects`.

Key theorems: `NamedList.merge_assoc`, `NamedList.ofList_append`, `NamedList.collects_ofList`,
`NamedList.collects_iff`, `Parameters.merging_laws`.
-/
import MarkupRules.Proofs.NamedLists
import MarkupRules.Schema.Pipeline
import Mathlib.Data.List.Induction

namespace MarkupRules

section Entries

variable {α : Type}

/-- The value that entries give a name last. -/
def lastValue? (name : String) (es : List (String × α)) : Option α :=
  (es.filter fun e => e.1 = name).getLast?.map Prod.snd

theorem lastValue?_concat (name : String) (es : List (String × α)) (e : String × α) :
    lastValue? name (es ++ [e]) = if name = e.1 then some e.2 else lastValue? name es := by
  unfold lastValue?
  rw [List.filter_append]
  by_cases h : name = e.1
  · simp [h]
  · simp [h, Ne.symm h]

theorem lastValue?_append (name : String) (es fs : List (String × α)) :
    lastValue? name (es ++ fs) = (lastValue? name fs).or (lastValue? name es) := by
  unfold lastValue?
  rw [List.filter_append, List.getLast?_append, Option.map_or]

/-- The names of entries with one more behind them, each at its first place. -/
theorem eraseDups_concat (names : List String) (name : String) :
    (names ++ [name]).eraseDups =
      if name ∈ names then names.eraseDups else names.eraseDups ++ [name] := by
  rw [List.eraseDups_append]
  by_cases h : name ∈ names <;> simp [List.removeAll, List.eraseDups_cons, h]

theorem insertEntry_of_not_mem {name : String} {es : List (String × α)} (value : α)
    (h : name ∉ es.map Prod.fst) : insertEntry name value es = es ++ [(name, value)] := by
  induction es with
  | nil => rfl
  | cons e es ih =>
    rw [List.map_cons, List.mem_cons, not_or] at h
    rw [insertEntry, if_neg (Ne.symm h.1), ih h.2, List.cons_append]

/-- Where no name is there twice, entries are found by their names. -/
theorem filterMap_find? {es : List (String × α)} (h : (es.map Prod.fst).Nodup) :
    (es.map Prod.fst).filterMap (fun name =>
      ((es.find? fun e => e.1 = name).map Prod.snd).map fun value => (name, value)) = es := by
  induction es with
  | nil => rfl
  | cons e es ih =>
    rw [List.map_cons, List.nodup_cons] at h
    have hrest : ∀ name ∈ es.map Prod.fst,
        ((e :: es).find? fun f => f.1 = name) = es.find? fun f => f.1 = name := by
      intro name hname
      have hne : e.1 ≠ name := fun he => h.1 (he ▸ hname)
      rw [List.find?_cons, decide_eq_false hne]
    have hhead : ((e :: es).find? fun f => f.1 = e.1) = some e := by simp
    rw [List.map_cons, List.filterMap_cons, hhead, Option.map_some, Option.map_some]
    refine congrArg (e :: ·) (Eq.trans (List.filterMap_congr fun name hname => ?_) (ih h.2))
    rw [hrest name hname]

end Entries

namespace NamedList

variable {α : Type}

/-! ### Collecting -/

theorem insertAll_append (t : NamedList α) (es fs : List (String × α)) :
    t.insertAll (es ++ fs) = (t.insertAll es).insertAll fs :=
  List.foldl_append

theorem ofList_concat (es : List (String × α)) (e : String × α) :
    ofList (es ++ [e]) = (ofList es).insert e.1 e.2 :=
  insertAll_append empty es [e]

/-- A table is collected from its own entries. -/
theorem ofList_entries (t : NamedList α) : ofList t.entries = t := by
  refine eq_of_entries ?_
  obtain ⟨es, hnodup⟩ := t
  show (ofList es).entries = es
  induction es using List.reverseRecOn with
  | nil => rfl
  | append_singleton es e ih =>
    rw [List.map_append, List.nodup_append] at hnodup
    have hnew : e.1 ∉ es.map Prod.fst := fun hmem =>
      hnodup.2.2 e.1 hmem e.1 (List.mem_singleton_self e.1) rfl
    rw [ofList_concat]
    show insertEntry e.1 e.2 (ofList es).entries = es ++ [e]
    rw [ih hnodup.1, insertEntry_of_not_mem e.2 hnew]

/-- A table that comes of entries: each name stands once, at the place of its first entry, with the
value of its last one. -/
structure Collects (t : NamedList α) (es : List (String × α)) : Prop where
  /-- No name stands twice. -/
  once : t.names.Nodup
  /-- Names stand in the order of their first entries. -/
  places : t.names = (es.map Prod.fst).eraseDups
  /-- A name has the value of its last entry. -/
  values : ∀ name, t.get? name = lastValue? name es

theorem names_ofList (es : List (String × α)) :
    (ofList es).names = (es.map Prod.fst).eraseDups := by
  induction es using List.reverseRecOn with
  | nil => rfl
  | append_singleton es e ih =>
    rw [ofList_concat, names_insert, ih, List.map_append, List.map_singleton, eraseDups_concat]
    simp only [List.mem_eraseDups]

theorem get?_ofList (es : List (String × α)) (name : String) :
    (ofList es).get? name = lastValue? name es := by
  induction es using List.reverseRecOn with
  | nil => rfl
  | append_singleton es e ih => rw [ofList_concat, get?_insert, ih, lastValue?_concat]

theorem collects_ofList (es : List (String × α)) : (ofList es).Collects es :=
  ⟨(ofList es).nodup, names_ofList es, get?_ofList es⟩

/-- The entries of a table are told by its names and their values. -/
theorem entries_eq (t : NamedList α) :
    t.entries = t.names.filterMap fun name => (t.get? name).map fun value => (name, value) :=
  (filterMap_find? t.nodup).symm

/-- Entries come to one table only. -/
theorem collects_iff {t : NamedList α} {es : List (String × α)} :
    t.Collects es ↔ t = ofList es := by
  constructor
  · intro h
    refine eq_of_entries ?_
    rw [entries_eq, entries_eq (ofList es), h.places, names_ofList]
    simp only [h.values, get?_ofList]
  · rintro rfl
    exact collects_ofList es

/-! ### Merging -/

theorem merge_empty (t : NamedList α) : t.merge empty = t :=
  rfl

theorem empty_merge (t : NamedList α) : empty.merge t = t :=
  ofList_entries t

/-- Entries may be given to a table after it was merged into another, or before. -/
theorem merge_insertAll (t u : NamedList α) (es : List (String × α)) :
    t.merge (u.insertAll es) = (t.merge u).insertAll es := by
  induction es using List.reverseRecOn with
  | nil => rfl
  | append_singleton es e ih =>
    calc t.merge (u.insertAll (es ++ [e]))
        = t.merge ((u.insertAll es).insert e.1 e.2) := by
          rw [insertAll_append]
          rfl
      _ = (t.merge (u.insertAll es)).insert e.1 e.2 := merge_insert t _ e.1 e.2
      _ = ((t.merge u).insertAll es).insert e.1 e.2 := by rw [ih]
      _ = (t.merge u).insertAll (es ++ [e]) := by
          rw [insertAll_append]
          rfl

theorem merge_assoc (t u v : NamedList α) : (t.merge u).merge v = t.merge (u.merge v) :=
  (merge_insertAll t u v.entries).symm

/-- Entries behind others are collected by themselves and merged. -/
theorem ofList_append (es fs : List (String × α)) :
    ofList (es ++ fs) = (ofList es).merge (ofList fs) := by
  calc ofList (es ++ fs)
      = ((ofList es).merge empty).insertAll fs := insertAll_append empty es fs
    _ = (ofList es).merge (ofList fs) := (merge_insertAll (ofList es) empty fs).symm

theorem merge_eq_ofList (t u : NamedList α) : t.merge u = ofList (t.entries ++ u.entries) := by
  rw [ofList_append, ofList_entries, ofList_entries]

theorem collects_merge (t u : NamedList α) : (t.merge u).Collects (t.entries ++ u.entries) :=
  merge_eq_ofList t u ▸ collects_ofList _

theorem get?_merge (t u : NamedList α) (name : String) :
    (t.merge u).get? name = (u.get? name).or (t.get? name) := by
  rw [merge_eq_ofList, get?_ofList, lastValue?_append, ← get?_ofList, ← get?_ofList,
    ofList_entries, ofList_entries]

end NamedList

open NamedList

/-- The parameters of a step are merged like any others. -/
theorem Schema.Step.withParameters_withParameters (s : Schema.Step) (a b : Parameters) :
    (s.withParameters a).withParameters b = s.withParameters (a.merge b) := by
  unfold withParameters
  rw [merge_assoc]

/-- Parameters form a monoid under merging, with the order of their names: it does not matter which
two of three are merged first, and no parameters change nothing on either side. Collecting takes one
list of entries behind another to a merge. Entries come to the parameters in which each name stands
once, at its first place, with its last value, and so does a merge. Steps take on parameters merged
or one after the other. -/
theorem Parameters.merging_laws (a b c : Parameters) (es fs : List (String × Scalar)) :
    (a.merge b).merge c = a.merge (b.merge c) ∧
    NamedList.empty.merge a = a ∧
    a.merge .empty = a ∧
    ofList (es ++ fs) = (ofList es).merge (ofList fs) ∧
    (∀ t : Parameters, t.Collects es ↔ t = ofList es) ∧
    (a.merge b).Collects (a.entries ++ b.entries) ∧
    (∀ name, (a.merge b).get? name = (b.get? name).or (a.get? name)) ∧
    ∀ s : Schema.Step, (s.withParameters a).withParameters b = s.withParameters (a.merge b) :=
  ⟨merge_assoc a b c, empty_merge a, merge_empty a, ofList_append es fs, fun _ => collects_iff,
    collects_merge a b, get?_merge a b, fun s => s.withParameters_withParameters a b⟩

example : ((ofList [("a", 1), ("b", 2)]).merge (ofList [("c", 3), ("a", 4), ("c", 5)])).entries =
    [("a", 4), ("b", 2), ("c", 5)] := rfl

end MarkupRules
