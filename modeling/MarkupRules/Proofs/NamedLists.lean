/-
# Tables of named values

A table is told by its names in order and the value under each. Here is what an erasure does to
both, and that a table of the values last given to some names may be merged into another in place
of giving them one after the other (`insertAll_insertEntry`).

Key theorems: `NamedList.mem_names_iff`, `NamedList.names_erase`, `NamedList.get?_erase`,
`NamedList.insert_insert_comm`, `NamedList.merge_insert`.
-/
import MarkupRules.NamedList
import Mathlib.Data.List.Basic

namespace MarkupRules

section Entries

variable {α : Type}

theorem insertEntry_insertEntry_self (name : String) (value earlier : α)
    (es : List (String × α)) :
    insertEntry name value (insertEntry name earlier es) = insertEntry name value es := by
  induction es with
  | nil => simp [insertEntry]
  | cons e es ih =>
    by_cases h : e.1 = name
    · simp [insertEntry, h]
    · simp [insertEntry, h, ih]

/-- Values of two names may be given in either order if one of the names is there already. -/
theorem insertEntry_insertEntry_comm {name other : String} (hne : other ≠ name) (value : α)
    (otherValue : α) {es : List (String × α)} (hname : name ∈ es.map Prod.fst) :
    insertEntry name value (insertEntry other otherValue es) =
      insertEntry other otherValue (insertEntry name value es) := by
  induction es with
  | nil => simp at hname
  | cons e es ih =>
    by_cases h : e.1 = name
    · have ho : e.1 ≠ other := fun he => hne (he.symm.trans h)
      simp [insertEntry, h, hne.symm]
    · have hrest : name ∈ es.map Prod.fst := by
        rw [List.map_cons, List.mem_cons] at hname
        exact hname.resolve_left fun he => h he.symm
      by_cases ho : e.1 = other
      · simp [insertEntry, ho, hne]
      · simp [insertEntry, h, ho, ih hrest]

end Entries

namespace NamedList

variable {α : Type}

theorem eq_of_entries {t u : NamedList α} (h : t.entries = u.entries) : t = u := by
  cases t
  cases u
  cases h
  rfl

/-! ### Names and values -/

theorem mem_names_iff {t : NamedList α} {name : String} :
    name ∈ t.names ↔ (t.get? name).isSome := by
  unfold names get?
  rw [Option.isSome_map, List.find?_isSome, List.mem_map]
  simp

theorem mem_names_of_get? {t : NamedList α} {name : String} {value : α}
    (h : t.get? name = some value) : name ∈ t.names :=
  mem_names_iff.2 (Option.isSome_of_eq_some h)

theorem get?_eq_none_iff {t : NamedList α} {name : String} :
    t.get? name = none ↔ name ∉ t.names := by
  rw [mem_names_iff, Option.not_isSome_iff_eq_none]

theorem contains_eq (t : NamedList α) (name : String) :
    t.contains name = decide (name ∈ t.names) := by
  unfold contains names
  rw [Bool.eq_iff_iff, List.any_eq_true, decide_eq_true_eq, List.mem_map]
  simp

theorem names_erase (t : NamedList α) (name : String) :
    (t.erase name).names = t.names.filter (· ≠ name) := by
  unfold erase names
  rw [List.filter_map]
  rfl

theorem get?_erase (t : NamedList α) (name other : String) :
    (t.erase name).get? other = if other = name then none else t.get? other := by
  have hfound : (t.erase name).get? other =
      (t.entries.find? fun e => e.1 ≠ name ∧ e.1 = other).map Prod.snd := by
    unfold erase get?
    rw [List.find?_filter]
    simp
  by_cases h : other = name
  · have hnone : (t.entries.find? fun e => e.1 ≠ name ∧ e.1 = other) = none := by
      rw [List.find?_eq_none]
      intro e _ he
      rw [decide_eq_true_eq] at he
      exact he.1 (he.2.trans h)
    rw [hfound, hnone, if_pos h]
    rfl
  · have hsame : (fun e : String × α => decide (e.1 ≠ name ∧ e.1 = other)) =
        fun e => decide (e.1 = other) := by
      funext e
      by_cases he : e.1 = other
      · simp [he, h]
      · simp [he]
    rw [hfound, hsame, if_neg h]
    rfl

/-! ### Many values -/

theorem insert_insert_self (t : NamedList α) (name : String) (value earlier : α) :
    (t.insert name earlier).insert name value = t.insert name value :=
  eq_of_entries (insertEntry_insertEntry_self name value earlier t.entries)

theorem insert_insert_comm {t : NamedList α} {name other : String} (hname : name ∈ t.names)
    (hne : other ≠ name) (value otherValue : α) :
    (t.insert other otherValue).insert name value =
      (t.insert name value).insert other otherValue :=
  eq_of_entries (insertEntry_insertEntry_comm hne value otherValue hname)

theorem mem_names_insert_self (t : NamedList α) (name : String) (value : α) :
    name ∈ (t.insert name value).names := by
  rw [names_insert]
  split
  · assumption
  · simp

theorem mem_of_get?_insertAll {name : String} {value : α} {es : List (String × α)}
    {t : NamedList α} (h : (t.insertAll es).get? name = some value) :
    (name, value) ∈ es ∨ t.get? name = some value := by
  induction es generalizing t with
  | nil => exact .inr h
  | cons e es ih =>
    rcases ih (t := t.insert e.1 e.2) h with h | h
    · exact .inl (List.mem_cons_of_mem e h)
    · rw [get?_insert] at h
      split at h
      · next hname =>
        cases h
        exact .inl (hname ▸ List.mem_cons_self)
      · exact .inr h

theorem mem_of_get?_ofList {name : String} {value : α} {es : List (String × α)}
    (h : (ofList es).get? name = some value) : (name, value) ∈ es :=
  (mem_of_get?_insertAll h).resolve_right nofun

theorem insertAll_insert {es : List (String × α)} {name : String}
    (hes : name ∉ es.map Prod.fst) (value : α) {t : NamedList α} (hname : name ∈ t.names) :
    (t.insertAll es).insert name value = (t.insert name value).insertAll es := by
  induction es generalizing t with
  | nil => rfl
  | cons e es ih =>
    rw [List.map_cons, List.mem_cons, not_or] at hes
    have hthere : name ∈ (t.insert e.1 e.2).names := by
      rw [names_insert]
      split
      · exact hname
      · exact List.mem_append_left _ hname
    calc (t.insertAll (e :: es)).insert name value
        = ((t.insert e.1 e.2).insertAll es).insert name value := rfl
      _ = ((t.insert e.1 e.2).insert name value).insertAll es := ih hes.2 hthere
      _ = ((t.insert name value).insert e.1 e.2).insertAll es := by
        rw [insert_insert_comm hname (fun he => hes.1 he.symm)]
      _ = (t.insert name value).insertAll (e :: es) := rfl

/-- A value may be given last, or put among the others under its name. -/
theorem insertAll_insertEntry (name : String) (value : α) {es : List (String × α)}
    (hes : (es.map Prod.fst).Nodup) (t : NamedList α) :
    t.insertAll (insertEntry name value es) = (t.insertAll es).insert name value := by
  induction es generalizing t with
  | nil => rfl
  | cons e es ih =>
    rw [List.map_cons, List.nodup_cons] at hes
    by_cases h : e.1 = name
    · have hrest : name ∉ es.map Prod.fst := h ▸ hes.1
      calc t.insertAll (insertEntry name value (e :: es))
          = (t.insert name value).insertAll es := by
            rw [insertEntry, if_pos h]
            rfl
        _ = ((t.insert name e.2).insert name value).insertAll es := by rw [insert_insert_self]
        _ = ((t.insert name e.2).insertAll es).insert name value :=
            (insertAll_insert hrest value (mem_names_insert_self t name e.2)).symm
        _ = (t.insertAll (e :: es)).insert name value := by
            rw [← h]
            rfl
    · calc t.insertAll (insertEntry name value (e :: es))
          = (t.insert e.1 e.2).insertAll (insertEntry name value es) := by
            rw [insertEntry, if_neg h]
            rfl
        _ = ((t.insert e.1 e.2).insertAll es).insert name value := ih hes.2 _
        _ = (t.insertAll (e :: es)).insert name value := rfl

theorem merge_insert (t u : NamedList α) (name : String) (value : α) :
    t.merge (u.insert name value) = (t.merge u).insert name value :=
  insertAll_insertEntry name value u.nodup t

end NamedList

end MarkupRules
