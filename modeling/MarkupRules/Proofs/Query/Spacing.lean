/-
# Blanks between tokens

The tokens of a text are decided by its lexemes and their order. The same lexemes with other blanks
around them, at least one between any two, give the same tokens.

Key definitions: `lexemes`, `Spaced`, `Respaced`.

Key theorems: `lexemes_locate`, `lexes_of_spaced`, `tokenize_respaced`.
-/
import MarkupRules.Proofs.Query.Coverage
import Mathlib.Data.List.DropRight

namespace MarkupRules.Query

/-- The characters of the tokens of a text, each without the blanks behind it. The end of the text
has none. -/
def lexemes (text : String) : List Located → List (List Char)
  | t :: u :: rest =>
    (textBetween text t.position u.position).rdropWhile Text.isSpace :: lexemes text (u :: rest)
  | _ => []

/-- Lexemes one after the other, with blanks behind each of them and at least one blank between
any two. -/
inductive Spaced : List (List Char) → List Char → Prop where
  /-- No lexemes. -/
  | nil : Spaced [] []
  /-- A lexeme and those behind it. -/
  | cons {lexeme blanks rest : List Char} {more : List (List Char)} : IsBlank blanks →
      (more ≠ [] → blanks ≠ []) → Spaced more rest →
      Spaced (lexeme :: more) (lexeme ++ (blanks ++ rest))

/-- A text is made of the given lexemes, with blanks between them and perhaps at its ends. -/
def Respaced (words : List (List Char)) (text : String) : Prop :=
  ∃ blanks rest, IsBlank blanks ∧ Spaced words rest ∧ text.toList = blanks ++ rest

/-! ### The lexemes of a text -/

theorem rdropWhile_append {lexeme blanks : List Char} (hlexeme : Inked lexeme)
    (hblanks : IsBlank blanks) : (lexeme ++ blanks).rdropWhile Text.isSpace = lexeme := by
  obtain ⟨front, c, rfl, hc⟩ := hlexeme.last
  have hrun : ∀ d ∈ blanks.reverse, Text.isSpace d := fun d hd => hblanks d (List.mem_reverse.1 hd)
  have hends : ∀ d ∈ (front ++ [c]).reverse.head?, Text.isSpace d = false := by
    intro d hd
    rw [List.reverse_concat] at hd
    cases hd
    exact hc
  rw [List.rdropWhile, List.reverse_append, dropWhile_run hrun hends, List.reverse_reverse]

theorem lexemes_locate {text : String} : ∀ {front : List Char} {xs : List Piece},
    text.toList = front ++ textOf xs →
      lexemes text (locate (byteLength front) xs) = xs.map Piece.lexeme
  | front, [], _ => rfl
  | front, x :: xs, h => by
    have hsplit : text.toList = front ++ (x.text ++ textOf xs) := h
    have hrest : text.toList = (front ++ x.text) ++ textOf xs := by simpa using hsplit
    have hstep : lexemes text (locate (byteLength front) (x :: xs)) =
        (textBetween text (byteLength front) (byteLength front + byteLength x.text)).rdropWhile
          Text.isSpace :: lexemes text (locate (byteLength (front ++ x.text)) xs) := by
      rw [byteLength_append]
      cases xs <;> rfl
    rw [hstep, textBetween_eq hsplit, lexemes_locate hrest, List.map_cons, Piece.text,
      rdropWhile_append x.spelled.inked x.blank]

/-! ### Lexemes give tokens -/

variable {operatorAllowed : Bool} {rest : List Char} {ts : List Token}

theorem Lexes.blanks (h : Lexes operatorAllowed rest ts) : ∀ {blanks : List Char},
    IsBlank blanks → Lexes operatorAllowed (blanks ++ rest) ts
  | [], _ => h
  | _ :: _, hblanks =>
    have hall := List.forall_mem_cons.1 hblanks
    .blank hall.1 (h.blanks hall.2)

/-- A spelling in front of a blank, or of nothing. -/
theorem Lexes.spelling {t : Token} {lexeme : List Char} (hspelled : Spelling t lexeme)
    (hfits : t.Fits operatorAllowed) (hrest : EndsLexeme rest) (h : Lexes t.endsOperand rest ts) :
    Lexes operatorAllowed (lexeme ++ rest) (t :: ts) := by
  have htoken := takeToken_of_spelling hspelled hfits hrest
  obtain ⟨c, front, rfl, hc⟩ := hspelled.inked.first
  exact .cons hc htoken hspelled.ne_eof h

/-- Whatever blanks stand between them, the lexemes of pieces give the tokens of the pieces. -/
theorem lexes_of_spaced : ∀ {operatorAllowed : Bool} {xs : List Piece} {cs : List Char},
    Consistent operatorAllowed xs → Spaced (xs.map Piece.lexeme) cs →
      Lexes operatorAllowed cs (xs.map Piece.token)
  | _, [], _, _, h => by
    cases h
    exact .nil _
  | _, x :: xs, _, hconsistent, h => by
    cases h with
    | @cons _ blanks rest _ hblanks hbetween hrest =>
      have hends : EndsLexeme (blanks ++ rest) := by
        intro c hc
        rcases blanks with _ | ⟨b, blanks⟩
        · -- Without a blank behind it the lexeme is the last one.
          have hlast : xs.map Piece.lexeme = [] := by
            by_contra hmore
            exact hbetween hmore rfl
          rw [hlast] at hrest
          cases hrest
          cases hc
        · cases hc
          exact hblanks c List.mem_cons_self
      exact .spelling x.spelled hconsistent.1 hends
        ((lexes_of_spaced hconsistent.2 hrest).blanks hblanks)

/-- Blanks between tokens make no difference: the lexemes of a text with any blanks at the ends,
and any but none between two of them, give the same tokens. -/
theorem tokenize_respaced {text : String} {ts : List Located} (h : tokenize text = .ok ts)
    {respaced : String} (hrespaced : Respaced (lexemes text ts) respaced) :
    ∃ ts', tokenize respaced = .ok ts' ∧ ts'.map Located.token = ts.map Located.token := by
  obtain ⟨front, xs, -, htext, hconsistent, rfl⟩ := exists_pieces_of_tokenize h
  rw [lexemes_locate htext] at hrespaced
  obtain ⟨blanks, rest, hblanks, hspaced, hrest⟩ := hrespaced
  have hlexes : Lexes false respaced.toList (xs.map Piece.token) :=
    hrest ▸ (lexes_of_spaced hconsistent hspaced).blanks hblanks
  obtain ⟨body, finish, hok, htokens⟩ := tokenize_of_lexes hlexes
  obtain ⟨body', hlocate, htokens'⟩ := locate_eq_append (byteLength front) xs
  exact ⟨_, hok, by simp [hlocate, htokens, htokens']⟩

/-- `$x*.5>=div`, where the asterisk is an operator and `div` is a name, with other blanks. -/
theorem tokenize_respaced_product :
    let ts : List Located := [⟨.varRef "x", 0⟩, ⟨.multiply, 2⟩, ⟨.number ".5", 3⟩,
      ⟨.greaterEqual, 5⟩, ⟨.name none "div", 7⟩, ⟨.eof, 10⟩]
    tokenize "$x*.5>=div" = .ok ts ∧
      Respaced (lexemes "$x*.5>=div" ts) " $x *\t.5 >=\r\ndiv" ∧
      ∃ ts', tokenize " $x *\t.5 >=\r\ndiv" = .ok ts' ∧
        ts'.map Located.token = ts.map Located.token := by
  intro ts
  have htokens : tokenize "$x*.5>=div" = .ok ts := rfl
  have hlexemes : lexemes "$x*.5>=div" ts =
      [['$', 'x'], ['*'], ['.', '5'], ['>', '='], ['d', 'i', 'v']] := by
    decide +kernel
  have hspaced : Spaced [['$', 'x'], ['*'], ['.', '5'], ['>', '='], ['d', 'i', 'v']]
      "$x *\t.5 >=\r\ndiv".toList :=
    @Spaced.cons ['$', 'x'] [' '] _ _ (by decide) (by decide) <|
      @Spaced.cons ['*'] ['\t'] _ _ (by decide) (by decide) <|
        @Spaced.cons ['.', '5'] [' '] _ _ (by decide) (by decide) <|
          @Spaced.cons ['>', '='] ['\r', '\n'] _ _ (by decide) (by decide) <|
            @Spaced.cons ['d', 'i', 'v'] [] _ _ (by decide) (by decide) .nil
  have hrespaced : Respaced (lexemes "$x*.5>=div" ts) " $x *\t.5 >=\r\ndiv" :=
    hlexemes ▸ ⟨[' '], _, by decide, hspaced, rfl⟩
  exact ⟨htokens, hrespaced, tokenize_respaced htokens hrespaced⟩

end MarkupRules.Query
