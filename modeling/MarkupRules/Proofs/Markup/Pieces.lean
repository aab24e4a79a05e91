/-
# Pieces that are written are read

The pieces that a document is written with are taken off the front of a text again: names, quoted
values and character data with what is escaped in them, comments and processing instructions. Each
piece says what it must not hold for that, and what may stand behind it.

Key definitions: `IsPart`, `Spelled`, `IsTarget`, `IsRemarkText`, `IsInstructionText`,
`WritesChar`.

Key theorems: `takeQualified_written`, `takeComment_append`, `takeInstruction_append`,
`takePair_append`, `normalizeValue_escapeValueChars`, `takeText_escapeTextChars`.
-/
import MarkupRules.Markup.Reader
import MarkupRules.Markup.Writer
import MarkupRules.Proofs.Steps
import MarkupRules.Proofs.Text.Occurrences

namespace MarkupRules.Markup

open Text (dropStart? splitAtFirst?)

section Pieces

variable {rest : List Char}

/-! ### Names -/

/-- One of the parts of a name: it starts and goes on as a name, without a colon. -/
def IsPart (s : String) : Prop :=
  ∃ c cs, s.toList = c :: cs ∧ isNameStart c ∧ ∀ d ∈ c :: cs, isNameChar d ∧ d ≠ ':'

theorem isPart_iff {s : String} : IsPart s ↔
    s.toList.head?.any isNameStart ∧ s.toList.all fun d => isNameChar d && d != ':' := by
  unfold IsPart
  cases s.toList with
  | nil => simp
  | cons c cs => simp

instance : DecidablePred IsPart := fun _ => decidable_of_iff _ isPart_iff.symm

/-- The parts of a name are parts of names. -/
structure Spelled (label : Option String) (localPart : String) : Prop where
  /-- The part behind the colon. -/
  localPart : IsPart localPart
  /-- The part in front of it, if there is one. -/
  label : ∀ l ∈ label, IsPart l

theorem ne_of_isNameStart {c d : Char} (hc : isNameStart c) (hd : isNameStart d = false) : c ≠ d := by
  rintro rfl
  exact absurd (hd.symm.trans hc) Bool.false_ne_true

theorem isSpace_eq_false_of_isNameStart {c : Char} (hc : isNameStart c) :
    Text.isSpace c = false := by
  have hne : ∀ d, isNameStart d = false → c ≠ d := fun d hd => ne_of_isNameStart hc hd
  simp [Text.isSpace, hne ' ' (by decide), hne '\t' (by decide), hne '\r' (by decide),
    hne '\n' (by decide)]

/-- A name begins with a character that names may start with. -/
theorem Spelled.exists_cons {name : Name} (h : Spelled name.label name.localPart) :
    ∃ c cs, name.written.toList = c :: cs ∧ isNameStart c := by
  rcases hlabel : name.label with _ | l
  · obtain ⟨c, cs, hlist, hc, -⟩ := h.localPart
    exact ⟨c, cs, by simpa [Name.written, hlabel] using hlist, hc⟩
  · obtain ⟨c, cs, hlist, hc, -⟩ := h.label l hlabel
    exact ⟨c, cs ++ ':' :: name.localPart.toList, by simp [Name.written, hlabel, hlist], hc⟩

theorem isNameChar_of_mem_written {name : Name} (h : Spelled name.label name.localPart) {c : Char}
    (hc : c ∈ name.written.toList) : isNameChar c := by
  have hlocal : ∀ d ∈ name.localPart.toList, isNameChar d := by
    obtain ⟨e, es, hlist, -, hchars⟩ := h.localPart
    exact fun d hd => (hchars d (hlist ▸ hd)).1
  rcases hlabel : name.label with _ | l
  · exact hlocal c (by simpa [Name.written, hlabel] using hc)
  · obtain ⟨e, es, hlist, -, hchars⟩ := h.label l hlabel
    have hmem : c ∈ l.toList ∨ c = ':' ∨ c ∈ name.localPart.toList := by
      simpa [Name.written, hlabel] using hc
    rcases hmem with hc | rfl | hc
    · exact (hchars c (hlist ▸ hc)).1
    · decide
    · exact hlocal c hc

theorem splitQualified_written {name : Name} (h : Spelled name.label name.localPart) :
    splitQualified name.written.toList = .ok ⟨name.label, name.localPart⟩ := by
  obtain ⟨e, es, hlist, hstart, hchars⟩ := h.localPart
  have hplain : ∀ d ∈ e :: es, decide (d ≠ ':') = true := fun d hd =>
    decide_eq_true (hchars d hd).2
  have hcolon : ':' ∉ e :: es := fun hmem => (hchars ':' hmem).2 rfl
  have hback : String.ofList (e :: es) = name.localPart := by rw [← hlist, String.ofList_toList]
  rcases hlabel : name.label with _ | l
  · have hwritten : name.written.toList = e :: es := by
      simpa [Name.written, hlabel] using hlist
    rw [hwritten, splitQualified, List.takeWhile_eq_self_iff.2 hplain,
      List.dropWhile_eq_nil_iff.2 hplain]
    simp [hstart, hback, List.mem_cons.not.1 hcolon]
  · obtain ⟨c, cs, hlist', hstart', hchars'⟩ := h.label l hlabel
    have hplain' : ∀ d ∈ c :: cs, decide (d ≠ ':') = true := fun d hd =>
      decide_eq_true (hchars' d hd).2
    have hwritten : name.written.toList = (c :: cs) ++ ':' :: (e :: es) := by
      simp [Name.written, hlabel, hlist, hlist']
    rw [hwritten, splitQualified, List.takeWhile_append_of_pos hplain',
      List.dropWhile_append_of_pos hplain']
    have hback' : String.ofList (c :: cs) = l := by rw [← hlist', String.ofList_toList]
    simp [hstart, hstart', hback, hback', List.mem_cons.not.1 hcolon]

/-- A name is read back if the text behind it does not go on with it. -/
theorem takeQualified_written {name : Name} (h : Spelled name.label name.localPart)
    (hrest : ∀ c ∈ rest.head?, isNameChar c = false) :
    takeQualified (name.written.toList ++ rest) = .ok (⟨name.label, name.localPart⟩, rest) := by
  have hchars : ∀ c ∈ name.written.toList, isNameChar c = true := fun c hc =>
    isNameChar_of_mem_written h hc
  rw [takeQualified, takeWhile_run hchars hrest, dropWhile_run hchars hrest,
    splitQualified_written h]
  rfl

/-! ### Comments and processing instructions -/

/-- The text up to the first occurrence of `stop`, where no occurrence begins before its end. -/
theorem takeUntil_append {stop : List Char} (hstop : stop ≠ []) : ∀ {content : List Char},
    (∀ c ∈ content, isMarkupChar c) →
    (∀ before after, content = before ++ after → after ≠ [] →
      dropStart? stop (after ++ (stop ++ rest)) = none) →
    takeUntil stop (content ++ (stop ++ rest)) = .ok (content, stop ++ rest)
  | [], _, _ => by
    obtain ⟨c, cs, rfl⟩ := List.exists_cons_of_ne_nil hstop
    have hhere : (dropStart? (c :: cs) (c :: cs ++ rest)).isSome := by
      rw [Text.dropStart?_append]
      rfl
    rw [List.nil_append, List.cons_append, takeUntil, ← List.cons_append, if_pos hhere]
  | c :: content, hchars, hfirst => by
    have hnone := hfirst [] (c :: content) rfl (List.cons_ne_nil c content)
    have hmore : takeUntil stop (content ++ (stop ++ rest)) = .ok (content, stop ++ rest) :=
      takeUntil_append hstop (fun d hd => hchars d (List.mem_cons_of_mem c hd))
        fun before after heq hne => hfirst (c :: before) after (by rw [heq]; rfl) hne
    rw [List.cons_append] at hnone ⊢
    rw [takeUntil, hnone, hmore, if_pos (hchars c List.mem_cons_self)]
    rfl

/-- What a comment may hold. -/
structure IsRemarkText (s : String) : Prop where
  /-- Only characters of markup. -/
  chars : ∀ c ∈ s.toList, isMarkupChar c
  /-- No two hyphens next to each other. -/
  hyphens : ¬ "--".toList <:+: s.toList
  /-- No hyphen at the end. -/
  last : s.toList.getLast? ≠ some '-'

theorem takeComment_append {s : String} (h : IsRemarkText s) :
    takeComment (s.toList ++ ("-->".toList ++ rest)) = .ok (s.toList, rest) := by
  have hfirst : ∀ before after, s.toList = before ++ after → after ≠ [] →
      dropStart? "-->".toList (after ++ ("-->".toList ++ rest)) = none := by
    intro before after heq hne
    rcases after with _ | ⟨a, _ | ⟨b, after⟩⟩
    · exact absurd rfl hne
    · have ha : '-' ≠ a := by
        rintro rfl
        exact h.last (by rw [heq]; simp)
      exact Text.dropStart?_eq_none_of_ne _ _ ha
    · by_cases ha : '-' = a
      · have hb : '-' ≠ b := by
          rintro rfl
          exact h.hyphens ⟨before, after, by rw [heq, ← ha]; simp⟩
        simp [dropStart?, hb]
      · exact Text.dropStart?_eq_none_of_ne _ _ ha
  have hsplit : (splitAtFirst? "--".toList s.toList).isSome = false := by
    rw [Text.splitAtFirst?_eq_none_iff.2 h.hyphens]
    rfl
  have hexpect : expect "-->" ("-->".toList ++ rest) = .ok rest := by
    rw [expect, Text.dropStart?_append]
  rw [takeComment, takeUntil_append (by decide) h.chars hfirst, ok_bind]
  dsimp only
  rw [hexpect, ok_bind, hsplit]
  simp [h.last]

/-- What a processing instruction may be addressed to. -/
def IsTarget (s : String) : Prop :=
  ∃ c cs, s.toList = c :: cs ∧ isNameStart c ∧ ∀ d ∈ cs, isNameChar d

/-- What the content of a processing instruction may be. -/
structure IsInstructionText (s : String) : Prop where
  /-- Only characters of markup. -/
  chars : ∀ c ∈ s.toList, isMarkupChar c
  /-- The end of the instruction does not come earlier. -/
  stop : ¬ "?>".toList <:+: s.toList
  /-- No space at the front. -/
  first : ∀ c ∈ s.toList.head?, Text.isSpace c = false

theorem takeName_target {s : String} (h : IsTarget s)
    (hrest : ∀ c ∈ rest.head?, isNameChar c = false) :
    takeName (s.toList ++ rest) = .ok (s.toList, rest) := by
  obtain ⟨c, cs, hlist, hstart, hchars⟩ := h
  rw [hlist, List.cons_append, takeName, if_pos hstart, takeWhile_run hchars hrest,
    dropWhile_run hchars hrest]

/-- What stands between the target of an instruction and its end. -/
def instructionTail (content : String) : List Char :=
  if content = "" then [] else ' ' :: content.toList

theorem writeInstruction_eq (target content : String) :
    writeInstruction target content ++ rest =
      '<' :: '?' :: (target.toList ++ (instructionTail content ++ ("?>".toList ++ rest))) := by
  simp [writeInstruction, instructionTail]

theorem endsTarget_instructionTail (content : String) :
    ∀ c ∈ (instructionTail content ++ ("?>".toList ++ rest)).head?, isNameChar c = false := by
  intro c hc
  unfold instructionTail at hc
  split at hc <;> cases hc <;> decide

/-- Only the declaration of a text begins like one. -/
theorem not_begins_declaration {target content : String} (htarget : IsTarget target)
    (hxml : ¬ (target = "xml" ∧ content ≠ "")) :
    begins "xml " (target.toList ++ (instructionTail content ++ ("?>".toList ++ rest))) =
      false := by
  by_contra hbegins
  obtain ⟨behind, hbehind⟩ := Option.isSome_iff_exists.1 (Bool.not_eq_false _ ▸ hbegins)
  have heq := Text.append_of_dropStart? hbehind
  have htaken : takeName (target.toList ++ (instructionTail content ++ ("?>".toList ++ rest))) =
      .ok (target.toList, instructionTail content ++ ("?>".toList ++ rest)) :=
    takeName_target htarget (endsTarget_instructionTail content)
  have hdeclaration : takeName ("xml".toList ++ ' ' :: behind) =
      .ok ("xml".toList, ' ' :: behind) :=
    takeName_target ⟨'x', ['m', 'l'], by decide, by decide, List.all_eq_true.1 (by decide)⟩
      (by simp; decide)
  have hsplit : "xml ".toList ++ behind = "xml".toList ++ ' ' :: behind := by simp
  rw [heq, hsplit, hdeclaration] at htaken
  injection htaken with htaken
  injection htaken with hname htail
  refine hxml ⟨String.toList_inj.1 hname.symm, ?_⟩
  rintro rfl
  simp [instructionTail] at htail

theorem takeInstruction_append {target content : String} (htarget : IsTarget target)
    (h : IsInstructionText content) (hxml : ¬ (target = "xml" ∧ content ≠ "")) :
    takeInstruction (target.toList ++ (instructionTail content ++ ("?>".toList ++ rest))) =
      .ok ((target.toList, content.toList), rest) := by
  -- The mark does not stand in the content, nor begin in it and end behind it.
  have hfirst : ∀ before after, content.toList = before ++ after → after ≠ [] →
      dropStart? "?>".toList (after ++ ("?>".toList ++ rest)) = none := by
    intro before after heq hne
    rcases after with _ | ⟨a, _ | ⟨b, after⟩⟩
    · exact absurd rfl hne
    · by_cases ha : '?' = a
      · simp [dropStart?]
      · exact Text.dropStart?_eq_none_of_ne _ _ ha
    · by_cases ha : '?' = a
      · have hb : '>' ≠ b := by
          rintro rfl
          exact h.stop ⟨before, after, by rw [heq, ← ha]; simp⟩
        simp [dropStart?, hb]
      · exact Text.dropStart?_eq_none_of_ne _ _ ha
  have hskip : skipSpace (instructionTail content ++ ("?>".toList ++ rest)) =
      content.toList ++ ("?>".toList ++ rest) := by
    unfold instructionTail
    split
    · next hnone => simp [hnone, skipSpace, Text.isSpace]
    · next hsome =>
      obtain ⟨c, cs, hlist⟩ := List.exists_cons_of_ne_nil
        (mt String.toList_eq_nil_iff.1 hsome)
      have hc : Text.isSpace c = false := h.first c (by rw [hlist]; rfl)
      have hspace : Text.isSpace ' ' = true := by decide
      simp [hlist, skipSpace, hspace, hc]
  have hexpect : expect "?>" ("?>".toList ++ rest) = .ok rest := by
    rw [expect, Text.dropStart?_append]
  rw [takeInstruction, not_begins_declaration htarget hxml,
    takeName_target htarget (endsTarget_instructionTail content)]
  simp only [Bool.false_eq_true, if_false, ok_bind]
  rw [hskip, takeUntil_append (by decide) h.chars hfirst, ok_bind]
  dsimp only
  rw [hexpect]
  rfl

/-! ### Escaped characters -/

/-- What references are made of here: characters that are neither brackets nor quotes. -/
def isReferenceChar (c : Char) : Bool :=
  isMarkupChar c && c != '<' && c != '>' && c != '"' && c != '\r'

/-- A character written as it is, unless it is one of those to be escaped, or as a reference. -/
def WritesChar (escaped : List Char) (c : Char) (cs : List Char) : Prop :=
  cs = [c] ∧ c ∉ escaped ∨
    ∃ body, cs = '&' :: body ∧ body.all isReferenceChar ∧
      ∀ rest, takeReference (body ++ rest) = .ok (.char c, rest)

/-- The characters escaped in character data. -/
def escapedInText : List Char := ['&', '<', '>']

/-- The characters escaped in values. -/
def escapedInValue : List Char := ['"', '\n', '&', '<', '>']

theorem writesChar_escapeTextChar (c : Char) :
    WritesChar escapedInText c (escapeTextChar c) := by
  unfold escapeTextChar
  split
  · next h => exact .inr ⟨"amp;".toList, rfl, by decide, fun rest => h ▸ rfl⟩
  · next hamp =>
    split
    · next h => exact .inr ⟨"lt;".toList, rfl, by decide, fun rest => h ▸ rfl⟩
    · next hlt =>
      split
      · next h => exact .inr ⟨"gt;".toList, rfl, by decide, fun rest => h ▸ rfl⟩
      · next hgt => exact .inl ⟨rfl, by simp [escapedInText, hamp, hlt, hgt]⟩

theorem writesChar_escapeValueChar (c : Char) :
    WritesChar escapedInValue c (escapeValueChar c) := by
  unfold escapeValueChar
  split
  · next h => exact .inr ⟨"quot;".toList, rfl, by decide, fun rest => h ▸ rfl⟩
  · next hquote =>
    split
    · next h => exact .inr ⟨"#10;".toList, rfl, by decide, fun rest => h ▸ rfl⟩
    · next hline =>
      refine (writesChar_escapeTextChar c).imp_left fun ⟨hcs, hc⟩ => ⟨hcs, ?_⟩
      simpa [escapedInValue, escapedInText, hquote, hline] using hc

section WritesChar

variable {escaped cs : List Char} {c : Char}

/-- What a character is written with is the character itself or part of a reference. -/
theorem WritesChar.mem (h : WritesChar escaped c cs) {d : Char} (hd : d ∈ cs) :
    d = c ∧ c ∉ escaped ∨ isReferenceChar d := by
  rcases h with ⟨rfl, hc⟩ | ⟨body, rfl, hbody, -⟩
  · exact .inl ⟨List.mem_singleton.1 hd, hc⟩
  · refine .inr ?_
    rcases List.mem_cons.1 hd with rfl | hd
    · decide
    · exact List.all_eq_true.1 hbody d hd

end WritesChar

/-- The characters of an escaped text are neither brackets nor, in a value, quotes. -/
theorem isMarkupChar_of_mem_flatMap {escape : Char → List Char} {escaped : List Char}
    (hescape : ∀ c, WritesChar escaped c (escape c)) {cs : List Char}
    (hcs : ∀ c ∈ cs, isMarkupChar c) {d : Char} (hd : d ∈ cs.flatMap escape) :
    isMarkupChar d ∧ (d ∉ escaped ∨ isReferenceChar d) := by
  obtain ⟨c, hc, hd⟩ := List.mem_flatMap.1 hd
  rcases (hescape c).mem hd with ⟨rfl, hescaped⟩ | hreference
  · exact ⟨hcs d hc, .inl hescaped⟩
  · have hmarkup : isMarkupChar d = true := by
      simp only [isReferenceChar, Bool.and_eq_true] at hreference
      exact hreference.1.1.1.1
    exact ⟨hmarkup, .inr hreference⟩

/-! ### Values -/

theorem takeValue_escapeValue {s : String} (h : ∀ c ∈ s.toList, isMarkupChar c) :
    takeValue ('"' :: (escapeValue s ++ '"' :: rest)) = .ok (escapeValue s, rest) := by
  have hinside : ∀ d ∈ escapeValue s,
      (d ≠ '"' && d ≠ '<' && isMarkupChar d) = true := by
    intro d hd
    obtain ⟨hmarkup, hd⟩ := isMarkupChar_of_mem_flatMap writesChar_escapeValueChar h hd
    have hne : d ≠ '"' ∧ d ≠ '<' := by
      rcases hd with hd | hd
      · simp only [escapedInValue, List.mem_cons, not_or] at hd
        exact ⟨hd.1, hd.2.2.2.1⟩
      · simp only [isReferenceChar, Bool.and_eq_true, bne_iff_ne] at hd
        exact ⟨hd.1.2, hd.1.1.1.2⟩
    simp [hmarkup, hne.1, hne.2]
  have hspan : (escapeValue s ++ '"' :: rest).takeWhile
      (fun c => c ≠ '"' && c ≠ '<' && isMarkupChar c) = escapeValue s :=
    takeWhile_run hinside (by simp)
  have hquote : takeQuote ('"' :: (escapeValue s ++ '"' :: rest)) =
      .ok ('"', escapeValue s ++ '"' :: rest) := rfl
  rw [takeValue, hquote, ok_bind]
  dsimp only
  rw [hspan, List.drop_left]
  rfl

/-- A value without tabs and carriage returns is what its written form is read as. -/
theorem normalizeValue_escapeValueChars {entities : List Entity} {expand : ExpandValue}
    {references : Nat} : ∀ {cs : List Char} {fuel : Nat},
    (∀ c ∈ cs, c ≠ '\t' ∧ c ≠ '\r') → (cs.flatMap escapeValueChar).length < fuel →
      normalizeValue entities expand false fuel references (cs.flatMap escapeValueChar) =
        .ok (cs, references)
  | [], fuel + 1, _, _ => rfl
  | c :: cs, fuel + 1, hcs, hfuel => by
    obtain ⟨⟨htab, hreturn⟩, hcs⟩ := List.forall_mem_cons.1 hcs
    rw [List.flatMap_cons] at hfuel ⊢
    rcases writesChar_escapeValueChar c with ⟨hwritten, hescaped⟩ | ⟨body, hwritten, -, hreference⟩
    · simp only [escapedInValue, List.mem_cons, not_or] at hescaped
      obtain ⟨-, hline, hamp, -⟩ := hescaped
      rw [hwritten, List.cons_append, List.nil_append] at hfuel ⊢
      have hmore : normalizeValue entities expand false fuel references
          (cs.flatMap escapeValueChar) = .ok (cs, references) :=
        normalizeValue_escapeValueChars hcs (Nat.lt_of_succ_lt_succ hfuel)
      have hspace : spaceOut c = c := by simp [spaceOut, htab, hreturn, hline]
      rw [normalizeValue, if_pos hamp, if_neg fun hboth => hreturn hboth.1, hmore, ok_bind]
      simp [hspace]
    · rw [hwritten, List.cons_append] at hfuel ⊢
      have hlength : (cs.flatMap escapeValueChar).length < fuel := by
        simp only [List.length_cons, List.length_append] at hfuel
        omega
      have hmore : normalizeValue entities expand false fuel references
          (cs.flatMap escapeValueChar) = .ok (cs, references) :=
        normalizeValue_escapeValueChars hcs hlength
      rw [normalizeValue, if_neg (by simp), hreference, ok_bind]
      simp [hmore, ok_bind]

theorem takePair_append {name : Name} {s : String} (hname : Spelled name.label name.localPart)
    (hvalue : ∀ c ∈ s.toList, isMarkupChar c) :
    takePair (name.written.toList ++ '=' :: '"' :: (escapeValue s ++ '"' :: rest)) =
      .ok ((⟨name.label, name.localPart⟩, escapeValue s), rest) := by
  have hequals : takeEquals ('=' :: '"' :: (escapeValue s ++ '"' :: rest)) =
      .ok ('"' :: (escapeValue s ++ '"' :: rest)) := rfl
  have hends : ∀ c ∈ ('=' :: '"' :: (escapeValue s ++ '"' :: rest)).head?,
      isNameChar c = false := by
    intro c hc
    cases hc
    decide
  rw [takePair, takeQualified_written hname hends, ok_bind]
  dsimp only
  rw [hequals, ok_bind, takeValue_escapeValue hvalue]
  rfl

/-! ### Character data -/

/-- Escaped character data without carriage returns is read as it was, behind what was read before
in the same run. -/
theorem takeText_escapeTextChars {entities : List Entity} {expand : Expand} {p : Progress} :
    ∀ {cs : List Char} {fuel : Nat} {buffer : List Char} {raw : Bool},
    (∀ c ∈ cs, c ≠ '\r') → buffer.head? ≠ some '\r' →
      (cs.flatMap escapeTextChar).length < fuel →
      takeText entities expand false fuel p buffer raw (cs.flatMap escapeTextChar) =
        .ok (if cs.reverse ++ buffer = [] then p else p.addText (cs.reverse ++ buffer).reverse)
  | [], fuel + 1, buffer, raw, _, _, _ => rfl
  | c :: cs, fuel + 1, buffer, raw, hcs, hbuffer, hfuel => by
    obtain ⟨hreturn, hcs⟩ := List.forall_mem_cons.1 hcs
    have hhead : (c :: buffer).head? ≠ some '\r' := by simpa using hreturn
    have hsplit : (c :: cs).reverse ++ buffer = cs.reverse ++ c :: buffer := by simp
    rw [List.flatMap_cons] at hfuel ⊢
    rw [hsplit]
    rcases writesChar_escapeTextChar c with ⟨hwritten, hescaped⟩ | ⟨body, hwritten, -, hreference⟩
    · have hamp : c ≠ '&' := fun h => hescaped (by simp [escapedInText, h])
      rw [hwritten, List.cons_append, List.nil_append] at hfuel ⊢
      have hpush : ∀ last, pushTextChar buffer c last = c :: buffer := by
        intro last
        unfold pushTextChar
        split
        · exact absurd rfl hbuffer
        · simp [hreturn]
      rw [takeText]
      simp only [hamp, ne_eq, not_false_eq_true, if_true, hpush, ite_self]
      exact takeText_escapeTextChars hcs hhead (Nat.lt_of_succ_lt_succ hfuel)
    · rw [hwritten, List.cons_append] at hfuel ⊢
      have hlength : (cs.flatMap escapeTextChar).length < fuel := by
        simp only [List.length_cons, List.length_append] at hfuel
        omega
      rw [takeText]
      simp only [ne_eq, not_true_eq_false, if_false, hreference, ok_bind, Bool.false_eq_true]
      exact takeText_escapeTextChars hcs hhead hlength

/-- Escaped character data holds neither an opening bracket nor the end of a literal section. -/
theorem mem_escapeText {s : String} (h : ∀ c ∈ s.toList, isMarkupChar c) {d : Char}
    (hd : d ∈ escapeText s) : isMarkupChar d ∧ d ≠ '<' ∧ d ≠ '>' := by
  obtain ⟨hmarkup, hd⟩ := isMarkupChar_of_mem_flatMap writesChar_escapeTextChar h hd
  rcases hd with hd | hd
  · simp only [escapedInText, List.mem_cons, not_or] at hd
    exact ⟨hmarkup, hd.2.1, hd.2.2.1⟩
  · simp only [isReferenceChar, Bool.and_eq_true, bne_iff_ne] at hd
    exact ⟨hmarkup, hd.1.1.1.2, hd.1.1.2⟩

theorem checkText_escapeText {s : String} (h : ∀ c ∈ s.toList, isMarkupChar c) :
    checkText (escapeText s) = .ok () := by
  have hfind : (escapeText s).find? (fun c => !isMarkupChar c) = none :=
    List.find?_eq_none.2 fun d hd => by simp [(mem_escapeText h hd).1]
  have hstop : splitAtFirst? "]]>".toList (escapeText s) = none := by
    refine Text.splitAtFirst?_eq_none_iff.2 fun hinfix => ?_
    have hmem : '>' ∈ escapeText s := hinfix.subset (by simp)
    exact (mem_escapeText h hmem).2.2 rfl
  rw [checkText, hfind]
  dsimp only
  rw [hstop]
  rfl

end Pieces

end MarkupRules.Markup
