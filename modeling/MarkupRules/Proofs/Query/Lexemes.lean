/-
# Texts made of lexemes

A text that is made of lexemes with blanks around them, each lexeme one that the lexer takes from
what is left, is split into their tokens. What a name or a number is taken from is said by what
follows it.

Key definitions: `Lexes`, `IsName`, `IsWord`.

Key theorems: `tokenize_of_lexes`, `compile_of_lexes`, `lexes_slash`, `lexes_word`,
`lexes_labelled`, `lexes_number`.
-/
import MarkupRules.Proofs.Query.Compiled
import MarkupRules.Proofs.Query.Parsing.Accepted

namespace MarkupRules

/-- The digits of a natural are split off a text that goes on without digits. -/
theorem Decimal.spanDigits_toDigits (k : Nat) {rest : List Char}
    (hrest : ∀ c ∈ rest.head?, c.isDigit = false) :
    spanDigits (Nat.toDigits 10 k ++ rest) = (Nat.toDigits 10 k, rest) := by
  have hdigits : ∀ c ∈ Nat.toDigits 10 k, c.isDigit = true := fun c hc =>
    Nat.isDigit_of_mem_toDigits (by decide) (Nat.le_refl 10) hc
  rw [spanDigits, takeWhile_run hdigits hrest, dropWhile_run hdigits hrest]

namespace Query

/-! ### Lexemes one after the other -/

/-- A text is made of lexemes with the given tokens and of blanks, where the flag says whether the
first lexeme may be an operator. -/
inductive Lexes : Bool → List Char → List Token → Prop where
  /-- The empty text. -/
  | nil (operatorAllowed : Bool) : Lexes operatorAllowed [] []
  /-- A blank and what is behind it. -/
  | blank {operatorAllowed : Bool} {c : Char} {rest : List Char} {ts : List Token} :
      Text.isSpace c → Lexes operatorAllowed rest ts → Lexes operatorAllowed (c :: rest) ts
  /-- A lexeme and those behind it. -/
  | cons {operatorAllowed : Bool} {c : Char} {lexeme rest : List Char} {t : Token}
      {ts : List Token} : Text.isSpace c = false →
      takeToken operatorAllowed (c :: (lexeme ++ rest)) = .ok ⟨t, c :: lexeme, rest⟩ →
      t ≠ .eof → Lexes t.endsOperand rest ts →
      Lexes operatorAllowed (c :: (lexeme ++ rest)) (t :: ts)

theorem Lexes.ne_eof {operatorAllowed : Bool} {cs : List Char} {ts : List Token}
    (h : Lexes operatorAllowed cs ts) : ∀ t ∈ ts, t ≠ .eof := by
  induction h with
  | nil => simp
  | blank _ _ ih => exact ih
  | cons _ _ hne _ ih => exact List.forall_mem_cons.2 ⟨hne, ih⟩

theorem byteLength_append (cs ds : List Char) :
    byteLength (cs ++ ds) = byteLength cs + byteLength ds := by
  simp [byteLength, String.ofList_append]

/-- A blank is passed over. -/
theorem tokenizeFrom_blank {c : Char} (hc : Text.isSpace c) (fuel position : Nat)
    (operatorAllowed : Bool) (cs : List Char) :
    tokenizeFrom fuel position operatorAllowed (c :: cs) =
      tokenizeFrom fuel (position + byteLength [c]) operatorAllowed cs := by
  cases fuel with
  | zero => rfl
  | succ fuel =>
    have hlength : byteLength (c :: cs.takeWhile Text.isSpace) =
        byteLength [c] + byteLength (cs.takeWhile Text.isSpace) := byteLength_append [c] _
    simp only [tokenizeFrom, List.takeWhile_cons_of_pos hc, List.dropWhile_cons_of_pos hc, hlength,
      Nat.add_assoc]

/-- What a token does to the text it stands at the front of. -/
theorem tokenizeFrom_succ {fuel position : Nat} {operatorAllowed : Bool} {c : Char}
    {cs rest lexeme : List Char} {t : Token} (hspace : Text.isSpace c = false)
    (htoken : takeToken operatorAllowed (c :: cs) = .ok ⟨t, lexeme, rest⟩) (hne : t ≠ .eof) :
    tokenizeFrom (fuel + 1) position operatorAllowed (c :: cs) =
      (tokenizeFrom fuel (position + byteLength lexeme) t.endsOperand rest).map
        (⟨t, position⟩ :: ·) := by
  have hempty : byteLength [] = 0 := rfl
  simp [tokenizeFrom, hspace, htoken, hne, hempty]

/-- The tokens of the lexemes are found, and behind them the end of the text. -/
theorem tokenizeFrom_of_lexes {operatorAllowed : Bool} {cs : List Char} {ts : List Token}
    (h : Lexes operatorAllowed cs ts) : ∀ {fuel : Nat} (position : Nat), cs.length < fuel →
      ∃ body finish, tokenizeFrom fuel position operatorAllowed cs =
        .ok (body ++ [⟨.eof, finish⟩]) ∧ body.map Located.token = ts := by
  induction h with
  | nil operatorAllowed =>
    intro fuel position hfuel
    obtain ⟨fuel, rfl⟩ := Nat.exists_eq_add_one.2 hfuel
    exact ⟨[], position, rfl, rfl⟩
  | @blank operatorAllowed c rest ts hc _ ih =>
    intro fuel position hfuel
    rw [tokenizeFrom_blank hc]
    exact ih _ (Nat.lt_of_succ_lt hfuel)
  | @cons operatorAllowed c lexeme rest t ts hspace htoken hne _ ih =>
    intro fuel position hfuel
    obtain ⟨fuel, rfl⟩ := Nat.exists_eq_add_one.2 (Nat.zero_lt_of_lt hfuel)
    have hrest : rest.length < fuel := by
      simp only [List.length_cons, List.length_append] at hfuel
      omega
    obtain ⟨body, finish, hbody, htokens⟩ := ih (position + byteLength (c :: lexeme)) hrest
    refine ⟨⟨t, position⟩ :: body, finish, ?_, by rw [List.map_cons, htokens]⟩
    rw [tokenizeFrom_succ hspace htoken hne, hbody]
    rfl

theorem tokenize_of_lexes {text : String} {ts : List Token} (h : Lexes false text.toList ts) :
    ∃ body finish, tokenize text = .ok (body ++ [⟨.eof, finish⟩]) ∧
      body.map Located.token = ts :=
  tokenizeFrom_of_lexes h 0 (Nat.lt_succ_self _)

/-- A text whose tokens write an expression is compiled to it. -/
theorem compile_of_lexes {text : String} {ts : List Token} {context : Context} {e : Expr}
    (h : Lexes false text.toList ts) (hwrites : Writes context depthLimit ts e) :
    compile text context = .ok ⟨text, e⟩ := by
  obtain ⟨body, finish, htokenize, htokens⟩ := tokenize_of_lexes h
  have hne : ∀ t ∈ body, t.token ≠ .eof := fun t ht =>
    h.ne_eof _ (htokens ▸ List.mem_map_of_mem ht)
  refine compile_eq_ok_iff.2 ⟨_, htokenize, (parse_eq_ok_iff hne finish e).2 ?_, rfl⟩
  rwa [htokens]

/-! ### Names -/

/-- The characters of a name without a label. -/
structure IsName (cs : List Char) : Prop where
  /-- The first one may start a name. -/
  starts : cs.head?.any isNameStart
  /-- All of them may stand in a name. -/
  holds : ∀ c ∈ cs, isNameChar c

theorem IsName.exists_cons {cs : List Char} (h : IsName cs) :
    ∃ c rest, cs = c :: rest ∧ isNameStart c := by
  rcases cs with _ | ⟨c, rest⟩
  · exact absurd h.starts (by decide)
  · exact ⟨c, rest, rfl, h.starts⟩

/-- A text that the lexer takes as one word. -/
structure IsWord (s : String) : Prop where
  /-- It starts as a name. -/
  starts : s.toList.head?.any isNameStart
  /-- It goes on as a name to its end. -/
  whole : takeWord s.toList = (s.toList, [])

theorem IsWord.isName {s : String} (h : IsWord s) : IsName s.toList :=
  ⟨h.starts, List.takeWhile_eq_self_iff.1 (congrArg Prod.fst h.whole)⟩

theorem IsWord.exists_cons {s : String} (h : IsWord s) :
    ∃ c cs, s.toList = c :: cs ∧ isNameStart c ∧ ∀ d ∈ c :: cs, isNameChar d := by
  obtain ⟨c, cs, hlist, hc⟩ := h.isName.exists_cons
  exact ⟨c, cs, hlist, hc, hlist ▸ h.isName.holds⟩

theorem IsWord.ne_asterisk {s : String} (h : IsWord s) : s ≠ "*" := by
  rintro rfl
  exact absurd h.starts (by decide)

theorem isDigit_eq_false_of_isNameStart {c : Char} (hc : isNameStart c) : c.isDigit = false := by
  by_contra hdigit
  have hrange : 48 ≤ c.toNat ∧ c.toNat ≤ 57 := by
    simpa [Char.isDigit, UInt32.le_iff_toNat_le] using hdigit
  have halpha : c.isAlpha = false := by
    have hranges : c.isAlpha = (decide (c.val ≥ 'A'.val ∧ c.val ≤ 'Z'.val) ||
        (decide (c.val ≥ 'a'.val) && decide (c.val ≤ 'z'.val))) := rfl
    have hval : c.val.toNat = c.toNat := rfl
    rw [hranges]
    simp [UInt32.le_iff_toNat_le, hval]
    omega
  have hletter : Text.isLetter c = false := by
    rw [Text.isLetter, if_pos (by omega), halpha]
  have hunderscore : c ≠ '_' := by
    rintro rfl
    exact absurd hrange (by decide)
  simp [isNameStart, hletter, hunderscore] at hc

/-- The characters that are signs or start one. -/
def signs : List Char :=
  "()[]@,|+-=!<>:/.*$\"'".toList

/-- A character is no sign if it is of a kind of which no sign is. -/
theorem notMem_signs_of {kind : Char → Bool} (hsigns : signs.all fun d => !kind d) {c : Char}
    (hc : kind c) : c ∉ signs :=
  fun hmem => by simpa [hc] using List.all_eq_true.1 hsigns c hmem

theorem takeToken_of_notMem_signs {operatorAllowed : Bool} {c : Char} (hc : c ∉ signs)
    (cs : List Char) :
    takeToken operatorAllowed (c :: cs) =
      if c.isDigit then .ok (takeNumberToken (c :: cs))
      else if isNameStart c then .ok (takeNameToken operatorAllowed (c :: cs))
      else .error ("unexpected character '" ++ String.singleton c ++ "'") := by
  have hquote : ¬ (c = '"' ∨ c = '\'') := by
    rintro (rfl | rfl) <;> exact hc (by decide)
  unfold takeToken
  split
  case h_1 heq => cases heq
  case h_24 heq =>
    cases heq
    rw [if_neg hquote]
  all_goals
    rename_i heq
    cases heq
    exact absurd (by decide) hc

/-- What starts a name starts no other token. -/
theorem takeToken_of_isNameStart {operatorAllowed : Bool} {c : Char} (hc : isNameStart c)
    (cs : List Char) :
    takeToken operatorAllowed (c :: cs) = .ok (takeNameToken operatorAllowed (c :: cs)) := by
  have hnot : c ∉ signs := notMem_signs_of (by decide) hc
  rw [takeToken_of_notMem_signs hnot, isDigit_eq_false_of_isNameStart hc,
    if_neg Bool.false_ne_true, if_pos hc]

/-- What starts a number starts no other token. -/
theorem takeToken_of_isDigit {operatorAllowed : Bool} {c : Char} (hc : c.isDigit)
    (cs : List Char) :
    takeToken operatorAllowed (c :: cs) = .ok (takeNumberToken (c :: cs)) := by
  have hnot : c ∉ signs := notMem_signs_of (by decide) hc
  rw [takeToken_of_notMem_signs hnot, if_pos hc]

theorem isNameChar_of_isNameStart {c : Char} (hc : isNameStart c) : isNameChar c := by
  simp only [isNameStart, Bool.or_eq_true, decide_eq_true_eq] at hc
  rcases hc with hc | rfl
  · simp [isNameChar, Text.isAlphanumeric, hc]
  · decide

theorem eq_of_isSpace {c : Char} (h : Text.isSpace c) :
    c = ' ' ∨ c = '\t' ∨ c = '\r' ∨ c = '\n' := by
  simpa [Text.isSpace, or_assoc] using h

theorem isSpace_eq_false_of_isNameChar {c : Char} (hc : isNameChar c) :
    Text.isSpace c = false := by
  by_contra hspace
  rcases eq_of_isSpace (by simpa using hspace) with rfl | rfl | rfl | rfl <;>
    exact absurd hc (by decide)

theorem isSpace_eq_false_of_isNameStart {c : Char} (hc : isNameStart c) :
    Text.isSpace c = false :=
  isSpace_eq_false_of_isNameChar (isNameChar_of_isNameStart hc)

theorem isSpace_eq_false_of_isDigit {c : Char} (hc : c.isDigit) : Text.isSpace c = false := by
  by_contra hspace
  rcases eq_of_isSpace (by simpa using hspace) with rfl | rfl | rfl | rfl <;>
    exact absurd hc (by decide)

/-- A text that a name cannot go on with. -/
def EndsName (cs : List Char) : Prop :=
  ∀ c ∈ cs.head?, isNameChar c = false ∧ c ≠ ':'

theorem endsName_cons {c : Char} (hc : isNameChar c = false ∧ c ≠ ':') (cs : List Char) :
    EndsName (c :: cs) := by
  intro d hd
  cases hd
  exact hc

theorem takeWord_append {word rest : List Char} (hword : ∀ c ∈ word, isNameChar c)
    (hrest : ∀ c ∈ rest.head?, isNameChar c = false) :
    takeWord (word ++ rest) = (word, rest) := by
  rw [takeWord, takeWhile_run hword hrest, dropWhile_run hword hrest]

/-- A word is taken for the operator it names where operators are looked for. -/
theorem takeNameToken_wordOperator {word rest : List Char} {t : Token}
    (hword : ∀ c ∈ word, isNameChar c) (hrest : ∀ c ∈ rest.head?, isNameChar c = false)
    (ht : wordOperator? word = some t) : takeNameToken true (word ++ rest) = ⟨t, word, rest⟩ := by
  unfold takeNameToken
  rw [takeWord_append hword hrest]
  dsimp only
  rw [if_pos rfl, ht]

section Names

variable {operatorAllowed : Bool}

theorem takeNameToken_word {word rest : List Char} (hword : ∀ c ∈ word, isNameChar c)
    (hrest : EndsName rest) (hnot : operatorAllowed = true → wordOperator? word = none) :
    takeNameToken operatorAllowed (word ++ rest) =
      ⟨.name none (String.ofList word), word, rest⟩ := by
  unfold takeNameToken
  rw [takeWord_append hword fun c hc => (hrest c hc).1]
  dsimp only
  rw [ite_eq_right_iff.2 hnot]
  dsimp only
  split
  · exact absurd rfl (hrest ':' rfl).2
  · exact absurd rfl (hrest ':' rfl).2
  · rfl

theorem takeNameToken_anyLabelled {label : List Char} (hlabel : ∀ c ∈ label, isNameChar c)
    (hnot : operatorAllowed = true → wordOperator? label = none) (rest : List Char) :
    takeNameToken operatorAllowed (label ++ ':' :: '*' :: rest) =
      ⟨.name (some (String.ofList label)) "*", label ++ [':', '*'], rest⟩ := by
  have hcolon : ∀ d ∈ (':' :: '*' :: rest).head?, isNameChar d = false := by
    intro d hd
    cases hd
    decide
  unfold takeNameToken
  rw [takeWord_append hlabel hcolon]
  dsimp only
  rw [ite_eq_right_iff.2 hnot]
  rfl

theorem takeNameToken_labelled {label word rest : List Char} {c : Char}
    (hlabel : ∀ c ∈ label, isNameChar c) (hc : isNameStart c)
    (hword : ∀ d ∈ c :: word, isNameChar d) (hrest : EndsName rest)
    (hnot : operatorAllowed = true → wordOperator? label = none) :
    takeNameToken operatorAllowed (label ++ ':' :: (c :: word ++ rest)) =
      ⟨.name (some (String.ofList label)) (String.ofList (c :: word)), label ++ ':' :: c :: word,
        rest⟩ := by
  have hcolon : ∀ d ∈ (':' :: (c :: word ++ rest)).head?, isNameChar d = false := by
    intro d hd
    cases hd
    decide
  have hsecond : takeWord (c :: (word ++ rest)) = (c :: word, rest) :=
    takeWord_append hword fun d hd => (hrest d hd).1
  unfold takeNameToken
  rw [takeWord_append hlabel hcolon]
  dsimp only [List.cons_append]
  rw [ite_eq_right_iff.2 hnot]
  dsimp only
  split
  · next h =>
    cases h
    exact absurd hc (by decide)
  · next h =>
    cases h
    rw [if_pos hc, hsecond]
  · next h => exact absurd rfl (h c (word ++ rest))

end Names

section Pieces

variable {rest : List Char} {ts : List Token}

/-- A sign of one character. -/
theorem Lexes.sign {operatorAllowed : Bool} {c : Char} {t : Token}
    (hspace : Text.isSpace c = false)
    (htoken : takeToken operatorAllowed (c :: rest) = .ok ⟨t, [c], rest⟩) (hne : t ≠ .eof)
    (h : Lexes t.endsOperand rest ts) : Lexes operatorAllowed (c :: rest) (t :: ts) :=
  @Lexes.cons operatorAllowed c [] rest t ts hspace htoken hne h

/-- A slash that is no double slash. -/
theorem lexes_slash {operatorAllowed : Bool} (hrest : rest.head? ≠ some '/')
    (h : Lexes false rest ts) : Lexes operatorAllowed ('/' :: rest) (.slash :: ts) := by
  refine .sign (by decide) ?_ (by decide) h
  rcases rest with _ | ⟨c, rest⟩
  · rfl
  · have hc : c ≠ '/' := fun hc => hrest (congrArg some hc)
    simp [takeToken, hc]

/-- A name without a label. -/
theorem lexes_word {s : String} (hs : IsWord s) (hends : EndsName rest) (h : Lexes true rest ts) :
    Lexes false (s.toList ++ rest) (.name none s :: ts) := by
  obtain ⟨c, cs, hlist, hc, hword⟩ := hs.exists_cons
  have hnot : false = true → wordOperator? (c :: cs) = none := nofun
  have htoken : takeToken false (c :: (cs ++ rest)) = .ok ⟨.name none s, c :: cs, rest⟩ := by
    rw [takeToken_of_isNameStart hc, ← List.cons_append, takeNameToken_word hword hends hnot,
      ← hlist, String.ofList_toList]
  rw [hlist]
  exact .cons (isSpace_eq_false_of_isNameStart hc) htoken (by simp) h

/-- A name with a label. -/
theorem lexes_labelled {label s : String} (hlabel : IsWord label) (hs : IsWord s)
    (hends : EndsName rest) (h : Lexes true rest ts) :
    Lexes false (label.toList ++ ':' :: (s.toList ++ rest)) (.name (some label) s :: ts) := by
  obtain ⟨c, cs, hlist, hc, hword⟩ := hlabel.exists_cons
  obtain ⟨e, es, hlist', he, hword'⟩ := hs.exists_cons
  have hnot : false = true → wordOperator? (c :: cs) = none := nofun
  have htoken : takeToken false (c :: ((cs ++ ':' :: e :: es) ++ rest)) =
      .ok ⟨.name (some label) s, c :: (cs ++ ':' :: e :: es), rest⟩ := by
    have hsplit : c :: ((cs ++ ':' :: e :: es) ++ rest) = (c :: cs) ++ ':' :: (e :: es ++ rest) := by
      simp
    rw [takeToken_of_isNameStart hc, hsplit, takeNameToken_labelled hword he hword' hends hnot,
      ← hlist, ← hlist', String.ofList_toList, String.ofList_toList, hlist]
    rfl
  have hsplit : label.toList ++ ':' :: (s.toList ++ rest) =
      c :: ((cs ++ ':' :: e :: es) ++ rest) := by
    simp [hlist, hlist']
  rw [hsplit]
  exact .cons (isSpace_eq_false_of_isNameStart hc) htoken (by simp) h

/-- The digits of a natural, with a text behind them that a number cannot go on with. -/
theorem lexes_number {operatorAllowed : Bool} (k : Nat)
    (hends : ∀ c ∈ rest.head?, c.isDigit = false ∧ c ≠ '.') (h : Lexes true rest ts) :
    Lexes operatorAllowed ((toString k).toList ++ rest) (.number (toString k) :: ts) := by
  obtain ⟨c, cs, hlist⟩ := List.exists_cons_of_ne_nil (Nat.toDigits_ne_nil (n := k) (b := 10))
  have hnumber : takeNumber (Nat.toDigits 10 k ++ rest) = (Nat.toDigits 10 k, rest) := by
    unfold takeNumber
    rw [Decimal.spanDigits_toDigits k fun c hc => (hends c hc).1]
    dsimp only
    split
    · exact absurd rfl (hends '.' rfl).2
    · rfl
  have hc : c.isDigit = true :=
    Nat.isDigit_of_mem_toDigits (by decide) (Nat.le_refl 10) (hlist ▸ List.mem_cons_self)
  have htoken : takeToken operatorAllowed (c :: (cs ++ rest)) =
      .ok ⟨.number (toString k), c :: cs, rest⟩ := by
    rw [takeToken_of_isDigit hc, ← List.cons_append, ← hlist, takeNumberToken, hnumber,
      Nat.toString_eq_ofList_toDigits]
  rw [Nat.toString_eq_ofList_toDigits, String.toList_ofList, hlist]
  rw [Nat.toString_eq_ofList_toDigits] at htoken
  rw [hlist] at htoken
  exact .cons (isSpace_eq_false_of_isDigit hc) htoken (by simp) h

end Pieces

end Query

end MarkupRules
