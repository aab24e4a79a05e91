/-
# Values under names, in order of first mention

Options, namespace bindings and stage catalogues are small tables that are listed and passed on
in the order in which their names first appeared. Giving a name a new value keeps its place;
after an erasure it goes to the end.

Key definitions: `NamedList`, `insert`, `get?`, `erase`, `merge`, `ofList`.

Key theorems: `get?_insert`, and `names_insert`, the order of the names after an insertion.
-/

namespace MarkupRules

/-- A list of named values with a name in front changed or added at the end. -/
def insertEntry {α : Type} (name : String) (value : α) :
    List (String × α) → List (String × α)
  | [] => [(name, value)]
  | e :: rest => if e.1 = name then (name, value) :: rest else e :: insertEntry name value rest

theorem names_insertEntry {α : Type} (name : String) (value : α) (es : List (String × α)) :
    (insertEntry name value es).map Prod.fst =
      if name ∈ es.map Prod.fst then es.map Prod.fst else es.map Prod.fst ++ [name] := by
  induction es with
  | nil => simp [insertEntry]
  | cons e rest ih =>
    by_cases h : e.1 = name
    · simp [insertEntry, h]
    · have h' : ¬ name = e.1 := fun he => h he.symm
      simp only [insertEntry, h, if_false, List.map_cons, ih, List.mem_cons, h', false_or]
      split <;> simp

theorem nodup_insertEntry {α : Type} (name : String) (value : α) (es : List (String × α))
    (h : (es.map Prod.fst).Nodup) : ((insertEntry name value es).map Prod.fst).Nodup := by
  rw [names_insertEntry]
  split
  · exact h
  · next hn =>
    rw [List.nodup_append]
    refine ⟨h, by simp, ?_⟩
    intro a ha b hb
    rw [List.mem_singleton] at hb
    intro hab
    subst hb
    exact hn (hab ▸ ha)

/-- Values under distinct names. -/
structure NamedList (α : Type) where
  /-- The entries, in order of the first mention of their names. -/
  entries : List (String × α)
  /-- No name occurs twice. -/
  nodup : (entries.map Prod.fst).Nodup

namespace NamedList

variable {α : Type}

/-- No entries. -/
def empty : NamedList α := ⟨[], List.nodup_nil⟩

instance : Inhabited (NamedList α) := ⟨empty⟩

/-- The names in order. -/
def names (t : NamedList α) : List String :=
  t.entries.map Prod.fst

/-- The number of entries. -/
def size (t : NamedList α) : Nat :=
  t.entries.length

/-- Whether there are no entries. -/
def isEmpty (t : NamedList α) : Bool :=
  t.entries.isEmpty

/-- The value under a name. -/
def get? (t : NamedList α) (name : String) : Option α :=
  (t.entries.find? fun e => e.1 = name).map Prod.snd

/-- Whether a name has a value. -/
def contains (t : NamedList α) (name : String) : Bool :=
  t.entries.any fun e => e.1 = name

/-- Gives a name a value; a name already present keeps its place. -/
def insert (t : NamedList α) (name : String) (value : α) : NamedList α :=
  ⟨insertEntry name value t.entries, nodup_insertEntry name value t.entries t.nodup⟩

/-- Removes a name and closes the gap. -/
def erase (t : NamedList α) (name : String) : NamedList α :=
  ⟨t.entries.filter fun e => e.1 ≠ name,
    (List.filter_sublist.map Prod.fst).nodup t.nodup⟩

/-- Inserts entries one after the other. -/
def insertAll (t : NamedList α) (es : List (String × α)) : NamedList α :=
  es.foldl (fun t e => t.insert e.1 e.2) t

/-- Inserts every entry of `other`; its values win. -/
def merge (t other : NamedList α) : NamedList α :=
  t.insertAll other.entries

/-- The table built from entries in order. -/
def ofList (es : List (String × α)) : NamedList α :=
  empty.insertAll es

theorem names_insert (t : NamedList α) (name : String) (value : α) :
    (t.insert name value).names = if name ∈ t.names then t.names else t.names ++ [name] :=
  names_insertEntry name value t.entries

theorem find?_insertEntry (name : String) (value : α) (other : String)
    (es : List (String × α)) :
    ((insertEntry name value es).find? fun e => e.1 = other).map Prod.snd =
      if other = name then some value
      else (es.find? fun e => e.1 = other).map Prod.snd := by
  induction es with
  | nil => by_cases h : other = name <;> simp [insertEntry, h, eq_comm]
  | cons e rest ih =>
    by_cases h : e.1 = name
    · by_cases h2 : other = name
      · simp [insertEntry, h, h2]
      · have h3 : ¬ name = other := fun he => h2 he.symm
        simp [insertEntry, h, h2, h3]
    · by_cases h2 : e.1 = other
      · have h3 : ¬ other = name := fun he => h (h2.trans he)
        simp [insertEntry, h2, h3]
      · simp only [insertEntry, h, if_false, List.find?_cons, h2, decide_false]
        exact ih

theorem get?_insert (t : NamedList α) (name : String) (value : α) (other : String) :
    (t.insert name value).get? other = if other = name then some value else t.get? other :=
  find?_insertEntry name value other t.entries

end NamedList

end MarkupRules
