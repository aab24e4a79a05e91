/-
# The functions that take texts apart

`contains`, `starts-with`, `substring-before` and `substring-after` look for the same first place of
one text in another, whatever the values they are called with. What is before the place, the text
looked for and what is after the place make up the text again.

Key theorem: `Index.substrings_split_at_first`.
-/
import MarkupRules.Proofs.Text.Occurrences
import MarkupRules.Query.Function

namespace MarkupRules.Query.Index

variable (ix : Index) (focus : Focus) (a b : Value)

theorem apply_concat_around (before after : String) :
    ix.apply .concat focus [.text before, b, .text after] =
      .ok (.text (before ++ ix.textOf b ++ after)) := by
  have hbefore : ix.textOf (.text before) = before := rfl
  have hafter : ix.textOf (.text after) = after := rfl
  simp [apply, hbefore, hafter, String.append_assoc]

/-- The four functions agree on the first place of a text in another. If there is one, the parts
before and after it and the text between them make up the whole, and no place has less before it.
If there is none, both parts are empty. A text begins with another one exactly if nothing is before
the first place. -/
theorem substrings_split_at_first :
    ∃ (occurs starts : Bool) (before after : String),
      ix.apply .contains focus [a, b] = .ok (.truth occurs) ∧
      ix.apply .startsWith focus [a, b] = .ok (.truth starts) ∧
      ix.apply .substringBefore focus [a, b] = .ok (.text before) ∧
      ix.apply .substringAfter focus [a, b] = .ok (.text after) ∧
      (occurs = true ↔ ∃ front back, ix.textOf a = front ++ ix.textOf b ++ back) ∧
      (occurs = true →
        ix.apply .concat focus [.text before, b, .text after] = .ok (.text (ix.textOf a)) ∧
        ∀ front back, ix.textOf a = front ++ ix.textOf b ++ back →
          ∃ more, front = before ++ more) ∧
      (occurs = false → before = "" ∧ after = "") ∧
      (starts = true ↔ occurs = true ∧ before = "") := by
  refine ⟨Text.contains (ix.textOf a) (ix.textOf b), Text.startsWith (ix.textOf a) (ix.textOf b),
    Text.before (ix.textOf a) (ix.textOf b), Text.after (ix.textOf a) (ix.textOf b),
    rfl, rfl, rfl, rfl, Text.contains_iff_exists, fun hoccurs => ⟨?_, ?_⟩,
    Text.parts_of_contains_eq_false, Text.startsWith_iff_before⟩
  · rw [apply_concat_around, Text.before_append_after hoccurs]
  · intro front back hplace
    exact Text.exists_eq_before_append hplace

end MarkupRules.Query.Index
