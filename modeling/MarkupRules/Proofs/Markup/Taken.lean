/-
# Pieces that are read

What is taken off the front of a text is well formed: names are made of parts of names, comments
and processing instructions do not hold their own end, and character data holds the characters of
markup only, whether they stand there themselves or are referenced by a number. What has been
collected of a start tag has proper names, and its declarations leave the label and the namespaces
of markup itself alone.

Key definitions: `Payload.IsRemark`, `Binding.Proper`, `TagContent.Proper`.

Key theorems: `takeQualified_spelled`, `takeComment_isRemarkText`, `takeInstruction_isInstruction`,
`takeReference_isMarkupChar`, `takeTag_proper`.
-/
import MarkupRules.Proofs.Markup.Pieces

namespace MarkupRules.Markup

open Text (dropStart? splitAtFirst?)

/-! ### Names -/

section Taken

variable {cs rest : List Char}

theorem splitQualified_spelled {q : Qualified} (hcs : ∀ c ∈ cs, isNameChar c)
    (h : splitQualified cs = .ok q) : Spelled q.label q.localPart := by
  have hpart : ∀ {d : Char} {ds : List Char}, (∀ c ∈ d :: ds, isNameChar c) → ':' ∉ d :: ds →
      isNameStart d → IsPart (String.ofList (d :: ds)) := fun hds hcolon hd =>
    ⟨_, _, String.toList_ofList, hd, fun c hc => ⟨hds c hc, fun heq => hcolon (heq ▸ hc)⟩⟩
  -- Without a colon the whole is the local part; with one, what is in front of it may be empty.
  rcases hbehind : cs.dropWhile (· ≠ ':') with _ | ⟨colon, behind⟩
  · rcases cs with _ | ⟨c, cs⟩
    · cases h
    · rw [splitQualified, hbehind] at h
      dsimp only at h
      split at h
      · cases h
      · next hok =>
        cases h
        simp only [not_or, not_not] at hok
        exact ⟨hpart hcs hok.1 hok.2.2, by simp⟩
  · have hsub : ∀ c ∈ behind, isNameChar c := fun c hc =>
      hcs c ((List.dropWhile_suffix _).subset (hbehind ▸ List.mem_cons_of_mem _ hc))
    have hbefore : ∀ c ∈ cs.takeWhile (· ≠ ':'), isNameChar c := fun c hc =>
      hcs c ((List.takeWhile_prefix _).subset hc)
    have hcolon : ':' ∉ cs.takeWhile (· ≠ ':') := fun hc => by
      simpa using List.mem_takeWhile_imp hc
    rcases behind with _ | ⟨c, behind⟩
    · rw [splitQualified, hbehind] at h
      cases h
    rcases htake : cs.takeWhile (· ≠ ':') with _ | ⟨d, ds⟩
    · rw [splitQualified, hbehind, htake] at h
      dsimp only at h
      split at h
      · cases h
      · next hok =>
        cases h
        simp only [not_or, not_not] at hok
        exact ⟨hpart hsub hok.1 hok.2.2, by simp⟩
    · rw [splitQualified, hbehind, htake] at h
      dsimp only at h
      split at h
      · cases h
      · next hok =>
        cases h
        simp only [not_or, not_not] at hok
        rw [htake] at hbefore hcolon
        exact ⟨hpart hsub hok.1 hok.2.2, by simpa using hpart hbefore hcolon hok.2.1⟩

theorem takeQualified_spelled {q : Qualified} (h : takeQualified cs = .ok (q, rest)) :
    Spelled q.label q.localPart := by
  obtain ⟨q', hq, heq⟩ := map_eq_ok_iff.1 h
  cases heq
  exact splitQualified_spelled (fun c hc => List.mem_takeWhile_imp hc) hq

theorem takePair_spelled {q : Qualified} {value : List Char}
    (h : takePair cs = .ok ((q, value), rest)) : Spelled q.label q.localPart := by
  obtain ⟨⟨q', cs⟩, hq, h⟩ := bind_eq_ok_iff.1 h
  obtain ⟨cs, -, h⟩ := bind_eq_ok_iff.1 h
  obtain ⟨⟨value, cs⟩, -, h⟩ := bind_eq_ok_iff.1 h
  cases h
  exact takeQualified_spelled hq

/-! ### Comments and processing instructions -/

/-- What stands before the first occurrence of a text: characters of markup, no occurrence begins
in it, and the text goes on with it. -/
theorem takeUntil_eq_ok {stop : List Char} : ∀ {cs content rest : List Char},
    takeUntil stop cs = .ok (content, rest) →
      cs = content ++ rest ∧ (∀ c ∈ content, isMarkupChar c) ∧ (dropStart? stop rest).isSome ∧
        ∀ before after, content = before ++ after → after ≠ [] →
          dropStart? stop (after ++ rest) = none
  | [], content, rest, h => by cases h
  | c :: cs, content, rest, h => by
    rw [takeUntil] at h
    split at h
    · next hstop =>
      cases h
      exact ⟨rfl, by simp, hstop, by simp⟩
    · next hstop =>
      split at h
      · next hc =>
        obtain ⟨⟨content, rest⟩, htail, heq⟩ := map_eq_ok_iff.1 h
        cases heq
        obtain ⟨rfl, hmarkup, hrest, hfirst⟩ := takeUntil_eq_ok htail
        refine ⟨rfl, List.forall_mem_cons.2 ⟨hc, hmarkup⟩, hrest, fun before after heq hne => ?_⟩
        rcases before with _ | ⟨b, before⟩
        · rw [List.nil_append] at heq
          rw [← heq]
          exact Option.not_isSome_iff_eq_none.1 hstop
        · exact hfirst before after (List.cons.inj heq).2 hne
      · cases h

/-- The text looked for does not stand in what is before it. -/
theorem not_isInfix_of_takeUntil {stop content : List Char} (hstop : stop ≠ [])
    (hfirst : ∀ before after, content = before ++ after → after ≠ [] →
      dropStart? stop (after ++ rest) = none) : ¬ stop <:+: content := by
  rintro ⟨before, after, rfl⟩
  have hnone := hfirst before (stop ++ after) (by simp) (by simp [hstop])
  rw [List.append_assoc, Text.dropStart?_append] at hnone
  cases hnone

theorem takeComment_isRemarkText {content : List Char}
    (h : takeComment cs = .ok (content, rest)) : IsRemarkText (String.ofList content) := by
  obtain ⟨⟨content', cs⟩, htake, h⟩ := bind_eq_ok_iff.1 h
  obtain ⟨rest', -, h⟩ := bind_eq_ok_iff.1 h
  split at h
  · cases h
  · next hok =>
    cases h
    simp only [Bool.or_eq_true, not_or, decide_eq_true_eq] at hok
    obtain ⟨-, hmarkup, -, -⟩ := takeUntil_eq_ok htake
    refine ⟨by simpa using hmarkup, ?_, by simpa using hok.2⟩
    rw [String.toList_ofList (l := content)]
    exact Text.splitAtFirst?_eq_none_iff.1 (Option.not_isSome_iff_eq_none.1 hok.1)

theorem takeName_isTarget {name : List Char} (h : takeName cs = .ok (name, rest)) :
    IsTarget (String.ofList name) := by
  unfold takeName at h
  split at h
  · next c cs =>
    split at h
    · next hc =>
      cases h
      exact ⟨c, _, String.toList_ofList, hc, fun d hd => List.mem_takeWhile_imp hd⟩
    · cases h
  · cases h

theorem takeInstruction_isInstruction {target content : List Char}
    (h : takeInstruction cs = .ok ((target, content), rest)) :
    IsTarget (String.ofList target) ∧ IsInstructionText (String.ofList content) := by
  unfold takeInstruction at h
  split at h
  · cases h
  · obtain ⟨⟨target', cs'⟩, hname, h⟩ := bind_eq_ok_iff.1 h
    obtain ⟨⟨content', cs''⟩, htake, h⟩ := bind_eq_ok_iff.1 h
    obtain ⟨rest', -, h⟩ := bind_eq_ok_iff.1 h
    cases h
    obtain ⟨hskip, hmarkup, -, hfirst⟩ := takeUntil_eq_ok htake
    have hhead : ∀ c ∈ content.head?, Text.isSpace c = false := by
      intro c hc
      have hspace := List.head?_dropWhile_not Text.isSpace cs'
      have hfront : (skipSpace cs').head? = some c := by
        rw [hskip, List.head?_append, hc, Option.some_or]
      rw [← skipSpace, hfront] at hspace
      exact hspace
    exact ⟨takeName_isTarget hname, by simpa using hmarkup,
      by simpa using not_isInfix_of_takeUntil (by decide) hfirst, by simpa using hhead⟩

/-! ### Character data -/

theorem charOfReference {name : List Char} {c : Char} (h : builtinEntity? name = some c) :
    isMarkupChar c := by
  unfold builtinEntity? at h
  split at h
  · cases h; decide
  · split at h
    · cases h; decide
    · split at h
      · cases h; decide
      · split at h
        · cases h; decide
        · split at h
          · cases h; decide
          · cases h

theorem takeReference_isMarkupChar {c : Char} (h : takeReference cs = .ok (.char c, rest)) :
    isMarkupChar c := by
  unfold takeReference at h
  split at h
  · dsimp only at h
    split at h
    · split at h
      · next hc =>
        cases h
        exact hc
      · cases h
    · cases h
  · split at h
    · split at h
      · next hname =>
        cases h
        exact charOfReference hname
      · cases h
    · cases h

/-- What follows a name is part of the text. -/
theorem takeName_subset {name : List Char} (h : takeName cs = .ok (name, rest)) : rest ⊆ cs := by
  unfold takeName at h
  split at h
  · next c cs =>
    split at h
    · cases h
      exact fun d hd => List.mem_cons_of_mem _ ((List.dropWhile_suffix _).subset hd)
    · cases h
  · cases h

/-- What follows the mark of a base is part of the digits. -/
theorem base_subset (digits : List Char) :
    (match digits with
      | 'x' :: digits => (16, isHexDigit, digits)
      | _ => (10, Char.isDigit, digits)).2.2 ⊆ digits := by
  split
  · exact List.subset_cons_self _ _
  · exact List.Subset.refl _

/-- What follows a reference is part of the text. -/
theorem takeReference_subset {reference : Reference}
    (h : takeReference cs = .ok (reference, rest)) : rest ⊆ cs := by
  have hdigits : ∀ {p : Char → Bool} {xs : List Char} {rest : List Char},
      xs.dropWhile p = ';' :: rest → rest ⊆ xs := fun heq c hc =>
    (List.dropWhile_suffix _).subset (heq ▸ List.mem_cons_of_mem _ hc)
  unfold takeReference at h
  split at h
  · next digits =>
    have hmark := base_subset digits
    dsimp only at h
    split at h
    · next hend =>
      split at h
      · cases h
        exact List.Subset.trans (hdigits hend) (List.Subset.trans hmark (List.subset_cons_self _ _))
      · cases h
    · cases h
  · split at h
    · next hname =>
      have hrest := takeName_subset hname
      split at h
      · cases h
        exact List.Subset.trans (List.subset_cons_self _ _) hrest
      · cases h
        exact List.Subset.trans (List.subset_cons_self _ _) hrest
    · cases h

theorem checkText_isMarkupChar (h : checkText cs = .ok ()) : ∀ c ∈ cs, isMarkupChar c := by
  unfold checkText at h
  split at h
  · cases h
  · next hnone => exact fun c hc => by simpa using List.find?_eq_none.1 hnone c hc

theorem normalizeLines_isMarkupChar (h : ∀ c ∈ cs, isMarkupChar c) :
    ∀ c ∈ normalizeLines cs, isMarkupChar c := by
  have hline : isMarkupChar '\n' := by decide
  fun_induction normalizeLines cs with
  | case1 rest ih => simp_all
  | case2 rest h ih => simp_all
  | case3 c rest h h' ih => simp_all
  | case4 => simp

theorem pushTextChar_isMarkupChar {before : List Char} {c : Char}
    (hbefore : ∀ d ∈ before, isMarkupChar d) (hc : isMarkupChar c) (last : Bool) :
    ∀ d ∈ pushTextChar before c last, isMarkupChar d := by
  have hline : isMarkupChar '\n' := by decide
  unfold pushTextChar
  split
  · next earlier =>
    have hearlier : ∀ d ∈ earlier, isMarkupChar d := fun d hd =>
      hbefore d (List.mem_cons_of_mem _ hd)
    split
    · exact List.forall_mem_cons.2 ⟨hline, List.forall_mem_cons.2 ⟨hline, hearlier⟩⟩
    · split
      · exact List.forall_mem_cons.2 ⟨hc, List.forall_mem_cons.2 ⟨hline, hearlier⟩⟩
      · exact List.forall_mem_cons.2 ⟨hline, hearlier⟩
  · split
    · exact List.forall_mem_cons.2 ⟨hline, hbefore⟩
    · exact List.forall_mem_cons.2 ⟨hc, hbefore⟩

/-! ### Start tags -/

/-- A binding of a part of a name that leaves the label and the namespaces of markup itself
alone. -/
structure Binding.Proper (b : Binding) : Prop where
  /-- The label is part of a name. -/
  spelled : ∀ l ∈ b.label, IsPart l
  /-- The label of markup itself is not bound. -/
  label : b.label ≠ some xmlLabel
  /-- The namespaces of markup itself are not bound. -/
  uri : b.uri ≠ xmlUri ∧ b.uri ≠ xmlnsUri

/-- A name of an attribute that declares nothing. -/
structure Qualified.IsPlain (q : Qualified) : Prop where
  /-- Its parts are parts of names. -/
  spelled : Spelled q.label q.localPart
  /-- It is no declaration. -/
  label : q.label ≠ some xmlnsLabel
  /-- It is no declaration of a default. -/
  localPart : q.localPart ≠ xmlnsLabel

/-- What is collected of a start tag: bindings, and attributes that are none. -/
structure TagContent.Proper (t : TagContent) : Prop where
  /-- Its bindings. -/
  bindings : ∀ b ∈ t.bindings, b.Proper
  /-- Its other attributes. -/
  attributes : ∀ a ∈ t.attributes, a.1.IsPlain

theorem TagContent.proper_empty : TagContent.empty.Proper :=
  ⟨nofun, nofun⟩

theorem TagContent.Proper.add {t t' : TagContent} (ht : t.Proper) {q : Qualified}
    {value : String} (hq : Spelled q.label q.localPart) (h : t.add q value = .ok t') :
    t'.Proper := by
  have hbinding : ∀ b : Binding, b.Proper → TagContent.Proper ⟨t.bindings ++ [b], t.attributes⟩ :=
    fun b hb => ⟨List.forall_mem_append.2 ⟨ht.bindings, by simpa using hb⟩, ht.attributes⟩
  unfold TagContent.add at h
  split at h
  · next hlabel =>
    split at h
    · cases h
    · next hxmlns =>
      split at h
      · cases h
      · next hxml =>
        split at h
        · cases h
        · split at h
          · cases h
            exact ht
          · next huri =>
            cases h
            have hlocal : q.localPart ≠ xmlLabel := by simpa [huri] using hxml
            exact hbinding _ ⟨by simpa using hq.localPart, by simpa using hlocal, huri, hxmlns⟩
  · next hlabel =>
    split at h
    · split at h
      · cases h
      · next huri =>
        cases h
        exact hbinding _ ⟨by simp, by simp, not_or.1 huri⟩
    · next hlocal =>
      cases h
      exact ⟨ht.bindings, List.forall_mem_append.2
        ⟨ht.attributes, by simpa using ⟨hq, hlabel, hlocal⟩⟩⟩

/-- What is collected of a start tag stays proper. -/
theorem takeTag_proper {entities : List Entity} {levels : Nat} {nested : Bool} :
    ∀ {fuel references references' : Nat} {tag tag' : TagContent} {ending : TagEnd}
    {cs rest : List Char},
    takeTag entities levels nested fuel references tag cs = .ok (tag', ending, references', rest) →
      tag.Proper → tag'.Proper
  | 0, _, _, _, _, _, _, _, h, _ => by cases h
  | fuel + 1, _, _, _, _, _, [], _, h, htag => by
    cases h
    exact htag
  | fuel + 1, _, _, _, _, _, first :: more, _, h, htag => by
    rw [takeTag] at h
    split at h
    · obtain ⟨rest, -, heq⟩ := map_eq_ok_iff.1 h
      cases heq
      exact htag
    · cases h
      exact htag
    · cases h
    · split at h
      · cases h
      · obtain ⟨⟨⟨q, raw⟩, cs⟩, hpair, h⟩ := bind_eq_ok_iff.1 h
        obtain ⟨⟨value, references⟩, -, h⟩ := bind_eq_ok_iff.1 h
        obtain ⟨tag, hadd, h⟩ := bind_eq_ok_iff.1 h
        exact takeTag_proper h (htag.add (takePair_spelled hpair) hadd)

end Taken


end MarkupRules.Markup
