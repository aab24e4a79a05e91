/-
# How tokens are spelled

Said without the lexer: the signs and words that are always written alike, names with and without
labels, numbers and quoted texts. The lexer takes only spellings off the front of a text. Where
some token is spelled it takes one, and the very token if a blank follows its spelling and the
token fits the place: an asterisk and the words of operators are operators exactly where an
operator may stand.

Key definitions: `Token.sign?`, `IsNumeral`, `Spelling`, `Token.Fits`, `Lexed.FrontOf`.

Key theorems: `frontOf_of_takeToken`, `exists_takeToken_of_spelling`, `takeToken_of_spelling`.
-/
import MarkupRules.Proofs.Query.Lexemes

namespace MarkupRules.Query

/-- How the tokens are written that are always written alike. -/
def Token.sign? : Token → Option (List Char)
  | leftParen => some ['(']
  | rightParen => some [')']
  | leftBracket => some ['[']
  | rightBracket => some [']']
  | dot => some ['.']
  | dotDot => some ['.', '.']
  | atSign => some ['@']
  | comma => some [',']
  | colonColon => some [':', ':']
  | slash => some ['/']
  | doubleSlash => some ['/', '/']
  | pipe => some ['|']
  | plus => some ['+']
  | minus => some ['-']
  | equal => some ['=']
  | notEqual => some ['!', '=']
  | less => some ['<']
  | lessEqual => some ['<', '=']
  | greater => some ['>']
  | greaterEqual => some ['>', '=']
  | multiply => some ['*']
  | and => some "and".toList
  | or => some "or".toList
  | div => some "div".toList
  | mod => some "mod".toList
  | literal _ | number _ | varRef _ | name _ _ | eof => none

/-- Digits with at most one point before, between or behind them. -/
inductive IsNumeral : List Char → Prop where
  /-- Digits alone. -/
  | whole {ds : List Char} : ds ≠ [] → (∀ c ∈ ds, c.isDigit) → IsNumeral ds
  /-- Digits with a point. -/
  | pointed {ds es : List Char} : ds ++ es ≠ [] → (∀ c ∈ ds ++ es, c.isDigit) →
      IsNumeral (ds ++ '.' :: es)

/-- How tokens are spelled. The end of the text has no spelling. -/
inductive Spelling : Token → List Char → Prop where
  /-- A sign, or the word of an operator. -/
  | sign {t : Token} {cs : List Char} : t.sign? = some cs → Spelling t cs
  /-- Any name. -/
  | anyName : Spelling (.name none "*") ['*']
  /-- A name. -/
  | name {word : List Char} : IsName word → Spelling (.name none (String.ofList word)) word
  /-- Any name behind a label. -/
  | anyLabelled {label : List Char} : IsName label →
      Spelling (.name (some (String.ofList label)) "*") (label ++ [':', '*'])
  /-- A name behind a label. -/
  | labelled {label word : List Char} : IsName label → IsName word →
      Spelling (.name (some (String.ofList label)) (String.ofList word)) (label ++ ':' :: word)
  /-- A variable. -/
  | varRef {word : List Char} : IsName word →
      Spelling (.varRef (String.ofList word)) ('$' :: word)
  /-- A variable with a label. -/
  | labelledVarRef {label word : List Char} : IsName label → IsName word →
      Spelling (.varRef (String.ofList (label ++ ':' :: word))) ('$' :: (label ++ ':' :: word))
  /-- A text between two quotes of one kind. -/
  | literal {quote : Char} {body : List Char} : quote = '"' ∨ quote = '\'' → quote ∉ body →
      Spelling (.literal (String.ofList body)) (quote :: (body ++ [quote]))
  /-- A number. -/
  | number {digits : List Char} : IsNumeral digits →
      Spelling (.number (String.ofList digits)) digits

/-- The names that are operators where an operator may stand. -/
def operatorNames : List String :=
  ["*", "and", "or", "div", "mod"]

/-- Whether a token is what its spelling means where an operator may or may not stand. -/
def Token.Fits (operatorAllowed : Bool) : Token → Prop
  | multiply | and | or | div | mod => operatorAllowed = true
  | name label localPart => operatorAllowed = true → label.getD localPart ∉ operatorNames
  | _ => True

/-! ### The pieces of names and numbers -/

variable {operatorAllowed : Bool}

theorem takeWord_append_eq (cs : List Char) : (takeWord cs).1 ++ (takeWord cs).2 = cs :=
  List.takeWhile_append_dropWhile

theorem isName_takeWord {c : Char} (hc : isNameStart c) (cs : List Char) :
    IsName (takeWord (c :: cs)).1 := by
  refine ⟨?_, fun d hd => List.mem_takeWhile_imp hd⟩
  rw [takeWord, List.takeWhile_cons_of_pos (isNameChar_of_isNameStart hc)]
  exact hc

theorem wordOperator?_eq_none_iff {word : List Char} :
    wordOperator? word = none ↔ String.ofList word ∉ ["and", "or", "div", "mod"] := by
  simp only [wordOperator?, ← String.ofList_inj, String.ofList_toList]
  split_ifs <;> simp [*]

theorem wordOperator?_eq_none_of_fits {word : List Char} (h : String.ofList word ∉ operatorNames) :
    wordOperator? word = none :=
  wordOperator?_eq_none_iff.2 fun hmem => h (List.mem_cons_of_mem _ hmem)

theorem notMem_operatorNames {word : List Char} (hword : IsName word)
    (h : wordOperator? word = none) : String.ofList word ∉ operatorNames := by
  rw [operatorNames, List.mem_cons, not_or]
  refine ⟨fun hstar => ?_, wordOperator?_eq_none_iff.1 h⟩
  have hlist : word = ['*'] := String.ofList_inj.1 hstar
  exact absurd (hlist ▸ hword.starts) (by decide)

theorem sign?_of_wordOperator? {word : List Char} {t : Token} (h : wordOperator? word = some t) :
    t.sign? = some word ∧ t.Fits true := by
  unfold wordOperator? at h
  split_ifs at h with hand hor hdiv hmod
  all_goals
    cases h
    subst word
    exact ⟨rfl, rfl⟩

/-! ### What is taken is spelled -/

/-- A token read off the front of a text: its spelling stands there, and it fits the place. -/
structure Lexed.FrontOf (operatorAllowed : Bool) (cs : List Char) (x : Lexed) : Prop where
  /-- Nothing of the text is lost. -/
  append_eq : x.lexeme ++ x.rest = cs
  /-- The characters taken spell the token. -/
  spelled : Spelling x.token x.lexeme
  /-- The token is what they mean here. -/
  fits : x.token.Fits operatorAllowed

theorem frontOf_takeNameToken {c : Char} (hc : isNameStart c) (cs : List Char) :
    (takeNameToken operatorAllowed (c :: cs)).FrontOf operatorAllowed (c :: cs) := by
  have happend := takeWord_append_eq (c :: cs)
  have hword := isName_takeWord hc cs
  unfold takeNameToken
  generalize takeWord (c :: cs) = taken at happend hword
  obtain ⟨word, rest⟩ := taken
  rw [← happend]
  dsimp only at hword ⊢
  split
  · next t ht =>
    obtain ⟨rfl, ht⟩ : operatorAllowed = true ∧ wordOperator? word = some t := by
      simpa using ht
    obtain ⟨hsign, hfits⟩ := sign?_of_wordOperator? ht
    exact ⟨rfl, .sign hsign, hfits⟩
  · next hnone =>
    have hnot : operatorAllowed = true → String.ofList word ∉ operatorNames := fun hallowed =>
      notMem_operatorNames hword (by simpa [hallowed] using hnone)
    split
    · exact ⟨by simp, .anyLabelled hword, hnot⟩
    · next d behind _ =>
      split
      · next hd =>
        have happend' := takeWord_append_eq (d :: behind)
        have hsecond := isName_takeWord hd behind
        exact ⟨by simp [happend'], .labelled hword hsecond, hnot⟩
      · exact ⟨rfl, .name hword, hnot⟩
    · exact ⟨rfl, .name hword, hnot⟩

theorem takeVariableName_spec (cs : List Char) :
    (takeVariableName cs).1 ++ (takeVariableName cs).2 = cs ∧
      ((takeVariableName cs).1 ≠ [] → Spelling (.varRef (String.ofList (takeVariableName cs).1))
        ('$' :: (takeVariableName cs).1)) := by
  unfold takeVariableName
  split
  · next c cs =>
    split
    · next hc =>
      have happend := takeWord_append_eq (c :: cs)
      have hword := isName_takeWord hc cs
      generalize takeWord (c :: cs) = taken at happend hword
      obtain ⟨word, rest⟩ := taken
      rw [← happend]
      dsimp only at hword ⊢
      split
      · next d behind =>
        split
        · next hd =>
          have happend' := takeWord_append_eq (d :: behind)
          exact ⟨by simp [happend'], fun _ => .labelledVarRef hword (isName_takeWord hd behind)⟩
        · exact ⟨rfl, fun _ => .varRef hword⟩
      · exact ⟨rfl, fun _ => .varRef hword⟩
    · exact ⟨rfl, fun h => absurd rfl h⟩
  · exact ⟨rfl, fun h => absurd rfl h⟩

/-- Whether a text starts with a digit, or with a point and a digit. -/
def StartsNumeral (cs : List Char) : Prop :=
  (∃ c rest, cs = c :: rest ∧ c.isDigit) ∨ ∃ c rest, cs = '.' :: c :: rest ∧ c.isDigit

theorem takeNumber_spec {cs : List Char} (hcs : StartsNumeral cs) :
    (takeNumber cs).1 ++ (takeNumber cs).2 = cs ∧ IsNumeral (takeNumber cs).1 := by
  have happend : cs.takeWhile Char.isDigit ++ cs.dropWhile Char.isDigit = cs :=
    List.takeWhile_append_dropWhile
  have hwhole : ∀ c ∈ cs.takeWhile Char.isDigit, c.isDigit := fun c => List.mem_takeWhile_imp
  unfold takeNumber Decimal.spanDigits
  dsimp only
  split
  · next rest hrest =>
    have happend' : rest.takeWhile Char.isDigit ++ rest.dropWhile Char.isDigit = rest :=
      List.takeWhile_append_dropWhile
    have hfraction : ∀ c ∈ rest.takeWhile Char.isDigit, c.isDigit := fun c =>
      List.mem_takeWhile_imp
    have hsome : cs.takeWhile Char.isDigit ++ rest.takeWhile Char.isDigit ≠ [] := by
      rcases hcs with ⟨c, behind, rfl, hc⟩ | ⟨c, behind, rfl, hc⟩
      · simp [hc]
      · cases hrest
        simp [hc]
    refine ⟨?_, .pointed hsome (List.forall_mem_append.2 ⟨hwhole, hfraction⟩)⟩
    rw [List.append_assoc, List.cons_append, happend', ← hrest, happend]
  · next hrest =>
    refine ⟨happend, .whole ?_ hwhole⟩
    rcases hcs with ⟨c, behind, rfl, hc⟩ | ⟨c, behind, rfl, hc⟩
    · simp [hc]
    · exact absurd rfl (hrest _)

theorem frontOf_takeNumberToken {cs : List Char} (hcs : StartsNumeral cs) :
    (takeNumberToken cs).FrontOf operatorAllowed cs :=
  ⟨(takeNumber_spec hcs).1, .number (takeNumber_spec hcs).2, trivial⟩

theorem frontOf_takeLiteral {quote : Char} (hquote : quote = '"' ∨ quote = '\'') {cs : List Char}
    {x : Lexed} (h : takeLiteral quote cs = some x) : x.FrontOf operatorAllowed (quote :: cs) := by
  unfold takeLiteral at h
  dsimp only at h
  split at h
  · next c rest hrest =>
    cases h
    have hbody : quote ∉ cs.takeWhile (· ≠ quote) := fun hmem => by
      simpa using List.mem_takeWhile_imp hmem
    have hc : c = quote := by
      have hends := List.head?_dropWhile_not (· ≠ quote) cs
      rw [hrest] at hends
      simpa using hends
    subst hc
    have happend : cs.takeWhile (· ≠ c) ++ c :: rest = cs :=
      hrest ▸ List.takeWhile_append_dropWhile
    exact ⟨by simpa using happend, .literal hquote hbody, trivial⟩
  · cases h

/-- The lexer takes nothing but spellings, and only tokens that fit the place. -/
theorem frontOf_of_takeToken {c : Char} {cs : List Char} {x : Lexed}
    (h : takeToken operatorAllowed (c :: cs) = .ok x) : x.FrontOf operatorAllowed (c :: cs) := by
  unfold takeToken at h
  -- Beside the signs, which are spelled in one way, there are four cases: a dot, an asterisk, a
  -- dollar sign, and the rest, which is told by the kind of the first character.
  split at h
  case h_1 heq => cases heq
  case h_21 heq =>
    cases heq
    split at h
    · next hdigit =>
      cases h
      rcases cs with _ | ⟨d, rest⟩
      · cases hdigit
      · exact frontOf_takeNumberToken (.inr ⟨d, rest, rfl, hdigit⟩)
    · cases h
      exact ⟨rfl, .sign rfl, trivial⟩
  case h_22 heq =>
    cases heq
    cases h
    cases operatorAllowed with
    | true => exact ⟨rfl, .sign rfl, rfl⟩
    | false => exact ⟨rfl, .anyName, nofun⟩
  case h_23 heq =>
    cases heq
    obtain ⟨happend, hspelled⟩ := takeVariableName_spec cs
    dsimp only at h
    split at h
    · cases h
    · next hsome =>
      cases h
      rw [List.isEmpty_iff] at hsome
      exact ⟨congrArg ('$' :: ·) happend, hspelled hsome, trivial⟩
  case h_24 heq =>
    cases heq
    split at h
    · next hquote =>
      split at h
      · next hx =>
        cases h
        exact frontOf_takeLiteral hquote hx
      · cases h
    · split at h
      · next hdigit =>
        cases h
        exact frontOf_takeNumberToken (.inl ⟨c, cs, rfl, hdigit⟩)
      · split at h
        · next hname =>
          cases h
          exact frontOf_takeNameToken hname cs
        · cases h
  all_goals
    rename_i heq
    cases heq
    cases h
    exact ⟨rfl, .sign rfl, trivial⟩

/-! ### Where a token is spelled one is taken -/

theorem IsName.takeToken_eq {cs : List Char} (h : IsName cs) (rest : List Char) :
    takeToken operatorAllowed (cs ++ rest) =
      .ok (takeNameToken operatorAllowed (cs ++ rest)) := by
  obtain ⟨c, cs, rfl, hc⟩ := h.exists_cons
  exact takeToken_of_isNameStart hc _

theorem StartsNumeral.takeToken_eq {cs : List Char} (h : StartsNumeral cs) :
    takeToken operatorAllowed cs = .ok (takeNumberToken cs) := by
  rcases h with ⟨c, rest, rfl, hc⟩ | ⟨c, rest, rfl, hc⟩
  · exact takeToken_of_isDigit hc rest
  · have hc' : c ≠ '.' := by
      rintro rfl
      exact absurd hc (by decide)
    simp [takeToken, hc, hc']

theorem IsNumeral.startsNumeral {cs : List Char} (h : IsNumeral cs) (rest : List Char) :
    StartsNumeral (cs ++ rest) := by
  cases h with
  | @whole ds hsome hdigits =>
    obtain ⟨c, ds, rfl⟩ := List.exists_cons_of_ne_nil hsome
    exact .inl ⟨c, ds ++ rest, rfl, hdigits c List.mem_cons_self⟩
  | @pointed ds es hsome hdigits =>
    rcases ds with _ | ⟨c, ds⟩
    · obtain ⟨c, es, rfl⟩ := List.exists_cons_of_ne_nil hsome
      exact .inr ⟨c, es ++ rest, rfl, hdigits c List.mem_cons_self⟩
    · exact .inl ⟨c, _, rfl, hdigits c List.mem_cons_self⟩

theorem takeToken_quote {quote : Char} (hquote : quote = '"' ∨ quote = '\'') {body : List Char}
    (hbody : quote ∉ body) (rest : List Char) :
    takeToken operatorAllowed (quote :: (body ++ [quote]) ++ rest) =
      .ok ⟨.literal (String.ofList body), quote :: (body ++ [quote]), rest⟩ := by
  have hrun : ∀ c ∈ body, (c ≠ quote : Bool) := fun c hc =>
    decide_eq_true (ne_of_mem_of_not_mem hc hbody)
  have hends : ∀ c ∈ (quote :: rest).head?, (c ≠ quote : Bool) = false := by
    intro c hc
    cases hc
    simp
  have hliteral : takeLiteral quote (body ++ quote :: rest) =
      some ⟨.literal (String.ofList body), quote :: (body ++ [quote]), rest⟩ := by
    rw [takeLiteral, takeWhile_run hrun hends, dropWhile_run hrun hends]
    rfl
  have hsplit : quote :: (body ++ [quote]) ++ rest = quote :: (body ++ quote :: rest) := by simp
  rw [hsplit]
  rcases hquote with rfl | rfl
  · simp [takeToken, hliteral]
  · simp [takeToken, hliteral]

theorem takeVariableName_ne_nil {cs : List Char} (h : IsName cs) (rest : List Char) :
    (takeVariableName (cs ++ rest)).1 ≠ [] := by
  obtain ⟨c, cs, rfl, hc⟩ := h.exists_cons
  obtain ⟨d, word, hword, -⟩ := (isName_takeWord hc (cs ++ rest)).exists_cons
  rw [List.cons_append]
  unfold takeVariableName
  dsimp only
  rw [if_pos hc, hword]
  split
  · split
    · exact List.cons_ne_nil _ _
    · exact List.cons_ne_nil _ _
  · exact List.cons_ne_nil _ _

theorem takeToken_variable {name rest : List Char} (h : (takeVariableName rest).1 = name)
    (hname : name ≠ []) : takeToken operatorAllowed ('$' :: rest) =
      .ok ⟨.varRef (String.ofList name), '$' :: name, (takeVariableName rest).2⟩ := by
  simp [takeToken, h, hname]

/-- Where a token is spelled the lexer takes a token, whatever follows. -/
theorem exists_takeToken_of_spelling {t : Token} {lexeme : List Char} (h : Spelling t lexeme)
    (operatorAllowed : Bool) (rest : List Char) :
    ∃ x, takeToken operatorAllowed (lexeme ++ rest) = .ok x := by
  cases h with
  | sign hsign =>
    cases t
    case and | or | div | mod =>
      cases hsign
      exact ⟨_, takeToken_of_isNameStart (by decide) _⟩
    -- These may be the beginning of a longer sign or, for a dot, of a number.
    case less | greater =>
      cases hsign
      rcases rest with _ | ⟨d, rest⟩
      · exact ⟨_, rfl⟩
      · by_cases hd : d = '=' <;> simp [takeToken, hd]
    case slash =>
      cases hsign
      rcases rest with _ | ⟨d, rest⟩
      · exact ⟨_, rfl⟩
      · by_cases hd : d = '/' <;> simp [takeToken, hd]
    case dot =>
      cases hsign
      rcases rest with _ | ⟨d, rest⟩
      · exact ⟨_, rfl⟩
      · by_cases hd : d = '.'
        · subst hd
          exact ⟨_, rfl⟩
        · cases hdigit : d.isDigit <;> simp [takeToken, hd, hdigit]
    all_goals
      cases hsign
      try exact ⟨_, rfl⟩
  | anyName => exact ⟨_, rfl⟩
  | name hname => exact ⟨_, hname.takeToken_eq rest⟩
  | anyLabelled hlabel => exact ⟨_, List.append_assoc _ _ _ ▸ hlabel.takeToken_eq _⟩
  | labelled hlabel _ => exact ⟨_, List.append_assoc _ _ _ ▸ hlabel.takeToken_eq _⟩
  | varRef hname => exact ⟨_, takeToken_variable rfl (takeVariableName_ne_nil hname rest)⟩
  | labelledVarRef hlabel _ =>
    rw [List.cons_append, List.append_assoc]
    exact ⟨_, takeToken_variable rfl (takeVariableName_ne_nil hlabel _)⟩
  | literal hquote hbody => exact ⟨_, takeToken_quote hquote hbody rest⟩
  | number hdigits => exact ⟨_, (hdigits.startsNumeral rest).takeToken_eq⟩

/-! ### The ends of a spelling -/

/-- A text that is not empty and neither begins nor ends with a blank. -/
structure Inked (cs : List Char) : Prop where
  /-- The first character is no blank. -/
  first : ∃ c rest, cs = c :: rest ∧ Text.isSpace c = false
  /-- The last character is no blank. -/
  last : ∃ front c, cs = front ++ [c] ∧ Text.isSpace c = false

theorem Inked.of_forall {cs : List Char} (hne : cs ≠ [])
    (h : ∀ c ∈ cs, Text.isSpace c = false) : Inked cs := by
  constructor
  · obtain ⟨c, rest, rfl⟩ := List.exists_cons_of_ne_nil hne
    exact ⟨c, rest, rfl, h c List.mem_cons_self⟩
  · exact ⟨cs.dropLast, cs.getLast hne, (List.dropLast_append_getLast hne).symm,
      h _ (List.getLast_mem hne)⟩

theorem IsName.isSpace_eq_false {cs : List Char} (h : IsName cs) :
    ∀ c ∈ cs, Text.isSpace c = false :=
  fun c hc => isSpace_eq_false_of_isNameChar (h.holds c hc)

theorem Token.inked_sign {t : Token} {cs : List Char} (h : t.sign? = some cs) : Inked cs := by
  have hall : cs ≠ [] ∧ cs.all (fun c => !Text.isSpace c) = true := by
    cases t <;> cases h <;> decide
  exact .of_forall hall.1 fun c hc => by simpa using List.all_eq_true.1 hall.2 c hc

theorem IsNumeral.inked {cs : List Char} (h : IsNumeral cs) : Inked cs := by
  cases h with
  | whole hsome hdigits =>
    exact .of_forall hsome fun c hc => isSpace_eq_false_of_isDigit (hdigits c hc)
  | @pointed ds es hsome hdigits =>
    refine .of_forall (by simp) fun c hc => ?_
    rcases List.mem_append.1 hc with hc | hc
    · exact isSpace_eq_false_of_isDigit (hdigits c (List.mem_append_left es hc))
    · rcases List.mem_cons.1 hc with rfl | hc
      · decide
      · exact isSpace_eq_false_of_isDigit (hdigits c (List.mem_append_right ds hc))

/-- Blanks stand in quoted texts only, so that no spelling begins or ends with one. -/
theorem Spelling.inked {t : Token} {lexeme : List Char} (h : Spelling t lexeme) :
    Inked lexeme := by
  have hcolon : Text.isSpace ':' = false := by decide
  cases h with
  | sign hsign => exact Token.inked_sign hsign
  | anyName => exact @Token.inked_sign .multiply _ rfl
  | name hname =>
    obtain ⟨c, cs, rfl, -⟩ := hname.exists_cons
    exact .of_forall (by simp) hname.isSpace_eq_false
  | anyLabelled hlabel =>
    refine .of_forall (by simp) (List.forall_mem_append.2 ⟨hlabel.isSpace_eq_false, ?_⟩)
    exact List.forall_mem_cons.2 ⟨hcolon, List.forall_mem_singleton.2 (by decide)⟩
  | labelled hlabel hword =>
    refine .of_forall (by simp) (List.forall_mem_append.2 ⟨hlabel.isSpace_eq_false, ?_⟩)
    exact List.forall_mem_cons.2 ⟨hcolon, hword.isSpace_eq_false⟩
  | varRef hword =>
    exact .of_forall (by simp) (List.forall_mem_cons.2 ⟨by decide, hword.isSpace_eq_false⟩)
  | labelledVarRef hlabel hword =>
    refine .of_forall (by simp) (List.forall_mem_cons.2 ⟨by decide, ?_⟩)
    exact List.forall_mem_append.2 ⟨hlabel.isSpace_eq_false,
      List.forall_mem_cons.2 ⟨hcolon, hword.isSpace_eq_false⟩⟩
  | @literal quote body hquote _ =>
    have hspace : Text.isSpace quote = false := by
      rcases hquote with rfl | rfl <;> decide
    exact ⟨⟨quote, _, rfl, hspace⟩, ⟨quote :: body, quote, rfl, hspace⟩⟩
  | number hdigits => exact hdigits.inked

/-! ### A spelling in front of a blank -/

variable {rest : List Char}

/-- Nothing follows, or a blank. -/
def EndsLexeme (rest : List Char) : Prop :=
  ∀ c ∈ rest.head?, Text.isSpace c

theorem EndsLexeme.endsName (h : EndsLexeme rest) : EndsName rest := by
  intro c hc
  rcases eq_of_isSpace (h c hc) with rfl | rfl | rfl | rfl <;> decide

theorem EndsLexeme.isDigit_eq_false (h : EndsLexeme rest) :
    ∀ c ∈ rest.head?, c.isDigit = false := by
  intro c hc
  rcases eq_of_isSpace (h c hc) with rfl | rfl | rfl | rfl <;> decide

theorem takeToken_wordOperator {word : List Char} {t : Token} (hword : IsName word)
    (ht : wordOperator? word = some t) (hrest : EndsLexeme rest) :
    takeToken true (word ++ rest) = .ok ⟨t, word, rest⟩ := by
  rw [hword.takeToken_eq, takeNameToken_wordOperator hword.holds
    (fun c hc => (hrest.endsName c hc).1) ht]

theorem takeToken_sign {t : Token} {cs : List Char} (hsign : t.sign? = some cs)
    (hfits : t.Fits operatorAllowed) (hrest : EndsLexeme rest) :
    takeToken operatorAllowed (cs ++ rest) = .ok ⟨t, cs, rest⟩ := by
  cases t
  case and | or | div | mod =>
    cases hsign
    cases hfits
    exact takeToken_wordOperator ⟨by decide, List.all_eq_true.1 (by decide)⟩ rfl hrest
  case multiply =>
    cases hsign
    cases hfits
    rfl
  case less | greater | slash | dot =>
    cases hsign
    rcases rest with _ | ⟨d, rest⟩
    · rfl
    · rcases eq_of_isSpace (hrest d rfl) with rfl | rfl | rfl | rfl <;> rfl
  all_goals
    cases hsign
    try rfl

theorem takeVariableName_word {word : List Char} (hword : IsName word) (hrest : EndsLexeme rest) :
    takeVariableName (word ++ rest) = (word, rest) := by
  have htaken : takeWord (word ++ rest) = (word, rest) :=
    takeWord_append hword.holds fun c hc => (hrest.endsName c hc).1
  obtain ⟨c, cs, rfl, hc⟩ := hword.exists_cons
  rw [List.cons_append] at htaken ⊢
  unfold takeVariableName
  dsimp only
  rw [if_pos hc, htaken]
  dsimp only
  split
  · exact absurd rfl (hrest.endsName ':' rfl).2
  · rfl

theorem takeVariableName_labelled {label word : List Char} (hlabel : IsName label)
    (hword : IsName word) (hrest : EndsLexeme rest) :
    takeVariableName (label ++ ':' :: (word ++ rest)) = (label ++ ':' :: word, rest) := by
  have htaken : takeWord (label ++ ':' :: (word ++ rest)) = (label, ':' :: (word ++ rest)) := by
    refine takeWord_append hlabel.holds fun c hc => ?_
    cases hc
    decide
  have hsecond : takeWord (word ++ rest) = (word, rest) :=
    takeWord_append hword.holds fun c hc => (hrest.endsName c hc).1
  obtain ⟨c, cs, rfl, hc⟩ := hlabel.exists_cons
  obtain ⟨d, ds, rfl, hd⟩ := hword.exists_cons
  rw [List.cons_append] at htaken ⊢
  unfold takeVariableName
  dsimp only
  rw [if_pos hc, htaken]
  dsimp only [List.cons_append] at hsecond ⊢
  split
  · next h =>
    cases h
    rw [if_pos hd, hsecond]
  · next h => exact absurd rfl (h d (ds ++ rest))

theorem takeNumber_numeral {digits : List Char} (h : IsNumeral digits) (hrest : EndsLexeme rest) :
    takeNumber (digits ++ rest) = (digits, rest) := by
  cases h with
  | whole _ hdigits =>
    unfold takeNumber Decimal.spanDigits
    rw [takeWhile_run hdigits hrest.isDigit_eq_false, dropWhile_run hdigits hrest.isDigit_eq_false]
    dsimp only
    split
    · exact absurd (hrest '.' rfl) (by decide)
    · rfl
  | @pointed ds es _ hdigits =>
    obtain ⟨hds, hes⟩ := List.forall_mem_append.1 hdigits
    have hpoint : ∀ c ∈ ('.' :: (es ++ rest)).head?, c.isDigit = false := by
      intro c hc
      cases hc
      decide
    rw [List.append_assoc, List.cons_append]
    unfold takeNumber Decimal.spanDigits
    rw [takeWhile_run hds hpoint, dropWhile_run hds hpoint]
    show (ds ++ '.' :: (es ++ rest).takeWhile Char.isDigit, (es ++ rest).dropWhile Char.isDigit) = _
    rw [takeWhile_run hes hrest.isDigit_eq_false, dropWhile_run hes hrest.isDigit_eq_false]

/-- A token that fits the place is taken off its spelling, if nothing or a blank follows it. -/
theorem takeToken_of_spelling {t : Token} {lexeme : List Char} (h : Spelling t lexeme)
    (hfits : t.Fits operatorAllowed) (hrest : EndsLexeme rest) :
    takeToken operatorAllowed (lexeme ++ rest) = .ok ⟨t, lexeme, rest⟩ := by
  cases h with
  | sign hsign => exact takeToken_sign hsign hfits hrest
  | anyName =>
    cases operatorAllowed with
    | true => exact absurd (hfits rfl) (by decide)
    | false => rfl
  | name hname =>
    rw [hname.takeToken_eq, takeNameToken_word hname.holds hrest.endsName fun hallowed =>
      wordOperator?_eq_none_of_fits (hfits hallowed)]
  | anyLabelled hlabel =>
    rw [List.append_assoc, hlabel.takeToken_eq]
    exact congrArg _ (takeNameToken_anyLabelled hlabel.holds (fun hallowed =>
      wordOperator?_eq_none_of_fits (hfits hallowed)) rest)
  | labelled hlabel hword =>
    obtain ⟨c, cs, rfl, hc⟩ := hword.exists_cons
    rw [List.append_assoc, hlabel.takeToken_eq]
    exact congrArg _ (takeNameToken_labelled hlabel.holds hc hword.holds hrest.endsName
      fun hallowed => wordOperator?_eq_none_of_fits (hfits hallowed))
  | @varRef word hword =>
    have htaken := takeVariableName_word hword hrest
    have hsome : word ≠ [] := by
      obtain ⟨c, cs, rfl, -⟩ := hword.exists_cons
      exact List.cons_ne_nil c cs
    rw [List.cons_append, takeToken_variable (congrArg Prod.fst htaken) hsome, htaken]
  | @labelledVarRef label word hlabel hword =>
    have htaken := takeVariableName_labelled hlabel hword hrest
    have hsplit : '$' :: (label ++ ':' :: word) ++ rest = '$' :: (label ++ ':' :: (word ++ rest)) := by
      simp
    rw [hsplit, takeToken_variable (congrArg Prod.fst htaken) (by simp), htaken]
  | literal hquote hbody => exact takeToken_quote hquote hbody rest
  | number hdigits =>
    rw [(hdigits.startsNumeral rest).takeToken_eq, takeNumberToken, takeNumber_numeral hdigits hrest]

end MarkupRules.Query
