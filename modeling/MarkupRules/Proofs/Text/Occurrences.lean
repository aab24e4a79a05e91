/-
# Where a text stands in another

A text stands in another one if the other falls into a part before it, the text itself and a part
after it. The search finds the first such place, the one with the least before it. So whether there
is a place, what is before the first one and what is after it are views of one split, and a text
begins with another one if nothing is before the first place.

Key definition: `SplitsAtFirst`.

Key theorems: `splitAtFirst?_eq_some_iff`, `splitAtFirst?_eq_none_iff`, `contains_iff`,
`splitsAtFirst_of_contains`, `startsWith_iff_before`.
-/
import MarkupRules.Text.Search

namespace MarkupRules.Text

/-! ### The first place -/

theorem dropStart?_eq_some_iff {start text rest : List Char} :
    dropStart? start text = some rest ↔ text = start ++ rest :=
  ⟨append_of_dropStart?, fun h => h ▸ dropStart?_append start rest⟩

theorem dropStart?_eq_none_of_ne {s c : Char} (start text : List Char) (h : s ≠ c) :
    dropStart? (s :: start) (c :: text) = none := by
  rw [dropStart?, if_neg h]

/-- A text is not split where it does not hold what is looked for. -/
theorem splitAtFirst?_eq_none_iff {needle text : List Char} :
    splitAtFirst? needle text = none ↔ ¬ needle <:+: text := by
  constructor
  · rintro h ⟨before, after, rfl⟩
    induction before with
    | nil =>
      have hhere : dropStart? needle (needle ++ after) = some after := dropStart?_append needle after
      rw [List.nil_append, splitAtFirst?_of_dropStart? hhere] at h
      cases h
    | cons c before ih =>
      rw [List.cons_append, List.cons_append, splitAtFirst?] at h
      split at h
      · cases h
      · exact ih (Option.map_eq_none_iff.1 h)
  · intro h
    rcases hsplit : splitAtFirst? needle text with _ | ⟨before, after⟩
    · rfl
    · exact absurd ⟨before, after, by simp [append_of_splitAtFirst? hsplit]⟩ h

/-- A text falls into what is before the first place of another one, that one, and what is after
it. Places may overlap: each is told by what is before it. -/
structure SplitsAtFirst (needle text before after : List Char) : Prop where
  /-- The parts make up the text. -/
  eq_append : text = before ++ (needle ++ after)
  /-- What is before any place begins with what is before the first one. -/
  least : ∀ front back, text = front ++ (needle ++ back) → before <+: front

theorem SplitsAtFirst.unique {needle text before after before' after' : List Char}
    (h : SplitsAtFirst needle text before after)
    (h' : SplitsAtFirst needle text before' after') : before = before' ∧ after = after' := by
  have hle : before.length ≤ before'.length := (h.least _ _ h'.eq_append).length_le
  have hle' : before'.length ≤ before.length := (h'.least _ _ h.eq_append).length_le
  have hsame : before ++ (needle ++ after) = before' ++ (needle ++ after') :=
    h.eq_append.symm.trans h'.eq_append
  obtain ⟨hbefore, hrest⟩ := List.append_inj hsame (by omega)
  exact ⟨hbefore, List.append_cancel_left hrest⟩

/-- The search does not pass a place: it stops there or has stopped before. -/
theorem isPrefix_of_splitAtFirst? {needle text before after : List Char}
    (h : splitAtFirst? needle text = some (before, after)) (front back : List Char)
    (htext : text = front ++ (needle ++ back)) : before <+: front := by
  -- The search either stops or moves on by one character, which is then the first of `front`.
  induction front generalizing text before with
  | nil =>
    have hhere : dropStart? needle text = some back := dropStart?_eq_some_iff.2 htext
    rw [splitAtFirst?_of_dropStart? hhere] at h
    cases h
    exact List.nil_prefix
  | cons c front ih =>
    subst htext
    rw [List.cons_append] at h
    cases hd : dropStart? needle (c :: (front ++ (needle ++ back))) with
    | some rest =>
      rw [splitAtFirst?_of_dropStart? hd] at h
      cases h
      exact List.nil_prefix
    | none =>
      rw [splitAtFirst?_cons hd] at h
      obtain ⟨p, hp, heq⟩ := Option.map_eq_some_iff.1 h
      cases heq
      exact List.cons_prefix_cons.2 ⟨rfl, ih hp rfl⟩

/-- Exactly the split at the first place is found. -/
theorem splitAtFirst?_eq_some_iff {needle text before after : List Char} :
    splitAtFirst? needle text = some (before, after) ↔ SplitsAtFirst needle text before after := by
  have sound : ∀ {before after}, splitAtFirst? needle text = some (before, after) →
      SplitsAtFirst needle text before after := fun h =>
    ⟨append_of_splitAtFirst? h, isPrefix_of_splitAtFirst? h⟩
  refine ⟨sound, fun h => ?_⟩
  rcases hs : splitAtFirst? needle text with _ | ⟨before', after'⟩
  · exact absurd ⟨before, after, by simp [h.eq_append]⟩ (splitAtFirst?_eq_none_iff.1 hs)
  · obtain ⟨rfl, rfl⟩ := h.unique (sound hs)
    rfl

/-! ### Parts of strings -/

variable {text needle : String}

theorem contains_iff : contains text needle = true ↔ needle.toList <:+: text.toList := by
  rw [contains, locate?_eq, Option.isSome_iff_ne_none, Ne, splitAtFirst?_eq_none_iff,
    Classical.not_not]

theorem splitsAtFirst_of_contains (h : contains text needle = true) :
    SplitsAtFirst needle.toList text.toList (before text needle).toList
      (after text needle).toList := by
  rw [contains, Option.isSome_iff_exists] at h
  obtain ⟨⟨b, a⟩, hp⟩ := h
  have hsplit := splitAtFirst?_eq_some_iff.1 (locate?_eq _ _ ▸ hp)
  simpa [before, after, hp] using hsplit

theorem contains_iff_exists :
    contains text needle = true ↔ ∃ front back, text = front ++ needle ++ back := by
  rw [contains_iff]
  constructor
  · rintro ⟨front, back, h⟩
    refine ⟨String.ofList front, String.ofList back, String.toList_inj.1 ?_⟩
    simp [← h]
  · rintro ⟨front, back, rfl⟩
    exact ⟨front.toList, back.toList, by simp⟩

/-- No place has less before it than the first one. -/
theorem exists_eq_before_append {front back : String} (h : text = front ++ needle ++ back) :
    ∃ more, front = before text needle ++ more := by
  have hcontains : contains text needle = true := contains_iff_exists.2 ⟨front, back, h⟩
  have htext : text.toList = front.toList ++ (needle.toList ++ back.toList) := by simp [h]
  obtain ⟨more, hmore⟩ := (splitsAtFirst_of_contains hcontains).least _ _ htext
  refine ⟨String.ofList more, String.toList_inj.1 ?_⟩
  simp [← hmore]

-- Places overlap in both texts.
example : before "ababac" "abac" = "ab" ∧ after "aaa" "aa" = "a" := by decide

theorem parts_of_contains_eq_false (h : contains text needle = false) :
    before text needle = "" ∧ after text needle = "" := by
  rw [contains, Option.isSome_eq_false_iff, Option.isNone_iff_eq_none] at h
  simp [before, after, h]

/-- The parts of a text and what is between them make up the text. -/
theorem before_append_after (h : contains text needle = true) :
    before text needle ++ needle ++ after text needle = text := by
  apply String.toList_inj.1
  simp [← (splitsAtFirst_of_contains h).eq_append]

theorem startsWith_iff : startsWith text needle = true ↔ needle.toList <+: text.toList := by
  rw [startsWith, Option.isSome_iff_exists]
  exact exists_congr fun rest => dropStart?_eq_some_iff.trans eq_comm

/-- A text begins with another one if nothing is before its first place. -/
theorem startsWith_iff_before :
    startsWith text needle = true ↔ contains text needle = true ∧ before text needle = "" := by
  rw [startsWith_iff]
  constructor
  · intro hstart
    have hcontains : contains text needle = true := contains_iff.2 hstart.isInfix
    obtain ⟨back, hback⟩ := hstart
    have hfront := (splitsAtFirst_of_contains hcontains).least [] back hback.symm
    exact ⟨hcontains, String.toList_eq_nil_iff.1 (List.prefix_nil.1 hfront)⟩
  · rintro ⟨hcontains, hbefore⟩
    have hsplit := (splitsAtFirst_of_contains hcontains).eq_append
    rw [hbefore] at hsplit
    exact ⟨_, hsplit.symm⟩

end MarkupRules.Text
