/-
# Tokens cover a text

Nothing of a text is lost between its tokens: it is blanks, and then spellings of tokens with
blanks behind them, up to its end or to the place where the lexer stops because no token is spelled
there. One token is taken off the front of what is left, and by induction the tokens found are the
pieces of the text, with the positions at which they stand.

Key definitions: `Piece`, `locate`, `Consistent`, `textBetween`, `Covers`, `StopsAt`.

Key theorems: `tokenizeFrom_spec`, `covers_of_pieces`, `stopsAt_of_pieces`, `tokenize_covers`.
-/
import MarkupRules.Proofs.Query.Spelling
import Mathlib.Data.String.Basic

namespace MarkupRules.Query

/-- All characters of a text are blanks. -/
def IsBlank (cs : List Char) : Prop :=
  ∀ c ∈ cs, Text.isSpace c

instance IsBlank.decidable (cs : List Char) : Decidable (IsBlank cs) :=
  decidable_of_iff (cs.all Text.isSpace = true) List.all_eq_true

/-- A piece of a text: the spelling of a token and the blanks behind it. -/
structure Piece where
  /-- The token. -/
  token : Token
  /-- The characters that spell the token. -/
  lexeme : List Char
  /-- The characters behind them. -/
  blanks : List Char
  /-- The first characters are a spelling. -/
  spelled : Spelling token lexeme
  /-- The others are blanks. -/
  blank : IsBlank blanks

/-- The characters of a piece. -/
def Piece.text (x : Piece) : List Char :=
  x.lexeme ++ x.blanks

/-- The characters of pieces one after the other. -/
def textOf (xs : List Piece) : List Char :=
  xs.flatMap Piece.text

/-- The tokens of pieces, the first of which stands at a position, and the end of the text. -/
def locate : Nat → List Piece → List Located
  | position, [] => [⟨.eof, position⟩]
  | position, x :: xs => ⟨x.token, position⟩ :: locate (position + byteLength x.text) xs

/-- Every token is what its spelling means behind the token before it, where the flag says whether
the first one may be an operator. -/
def Consistent : Bool → List Piece → Prop
  | _, [] => True
  | operatorAllowed, x :: xs =>
    x.token.Fits operatorAllowed ∧ Consistent x.token.endsOperand xs

/-- No token begins at the front of a text, which is not empty and does not begin with a blank. -/
structure Blocked (cs : List Char) : Prop where
  /-- There are characters. -/
  ne_nil : cs ≠ []
  /-- The first one is no blank. -/
  no_blank : ∀ c ∈ cs.head?, Text.isSpace c = false
  /-- No token is spelled by the first ones. -/
  no_spelling : ∀ t lexeme, Spelling t lexeme → ¬ lexeme <+: cs

/-! ### Pieces are found -/

theorem Spelling.ne_eof {t : Token} {lexeme : List Char} (h : Spelling t lexeme) : t ≠ .eof := by
  rintro rfl
  cases h with
  | sign hsign => cases hsign

theorem dropWhile_isSpace_spec (cs : List Char) :
    IsBlank (cs.takeWhile Text.isSpace) ∧
      ∀ c ∈ (cs.dropWhile Text.isSpace).head?, Text.isSpace c = false := by
  refine ⟨fun c hc => List.mem_takeWhile_imp hc, fun c hc => ?_⟩
  have hends := List.head?_dropWhile_not Text.isSpace cs
  rw [Option.mem_def.1 hc] at hends
  simpa using hends

/-- The lexer takes blanks and pieces off a text, and gives their tokens if nothing is left behind
them, or complains about the place where it is blocked. -/
theorem tokenizeFrom_spec : ∀ {fuel : Nat} (operatorAllowed : Bool) (position : Nat)
    {cs : List Char}, cs.length < fuel → ∃ blanks xs back, IsBlank blanks ∧
      cs = blanks ++ (textOf xs ++ back) ∧ Consistent operatorAllowed xs ∧
      ((back = [] ∧ tokenizeFrom fuel position operatorAllowed cs =
          .ok (locate (position + byteLength blanks) xs)) ∨
        (Blocked back ∧ ∃ problem, tokenizeFrom fuel position operatorAllowed cs =
          .error (.syntaxAt (position + byteLength (blanks ++ textOf xs)) problem)))
  | fuel + 1, operatorAllowed, position, cs, hfuel => by
    obtain ⟨hblank, hhead⟩ := dropWhile_isSpace_spec cs
    have happend : cs.takeWhile Text.isSpace ++ cs.dropWhile Text.isSpace = cs :=
      List.takeWhile_append_dropWhile
    unfold tokenizeFrom
    generalize cs.takeWhile Text.isSpace = blanks at hblank happend ⊢
    generalize cs.dropWhile Text.isSpace = tail at happend hhead ⊢
    subst happend
    dsimp only
    rcases tail with _ | ⟨c, tail⟩
    · exact ⟨blanks, [], [], hblank, rfl, trivial, .inl ⟨rfl, rfl⟩⟩
    · cases hx : takeToken operatorAllowed (c :: tail) with
      | error problem =>
        -- Were a token spelled here, the lexer would have taken one.
        have hblocked : Blocked (c :: tail) := by
          refine ⟨List.cons_ne_nil c tail, hhead, ?_⟩
          rintro t lexeme hspelled ⟨rest, hrest⟩
          obtain ⟨x, hfound⟩ := exists_takeToken_of_spelling hspelled operatorAllowed rest
          rw [hrest, hx] at hfound
          cases hfound
        exact ⟨blanks, [], c :: tail, hblank, rfl, trivial, .inr ⟨hblocked, problem, by
          simp [textOf]⟩⟩
      | ok x =>
        obtain ⟨hsplit, hspelled, hfits⟩ := frontOf_of_takeToken hx
        -- Every lexeme has a character, so that the fuel lasts for what is behind it.
        obtain ⟨d, front, hlexeme, -⟩ := hspelled.inked.first
        have hrest : x.rest.length < fuel := by
          rw [← hsplit, hlexeme] at hfuel
          simp only [List.length_append, List.length_cons] at hfuel
          omega
        obtain ⟨behind, xs, back, hbehind, hxs, hconsistent, houtcome⟩ :=
          tokenizeFrom_spec x.token.endsOperand
            (position + byteLength blanks + byteLength x.lexeme) hrest
        refine ⟨blanks, ⟨x.token, x.lexeme, behind, hspelled, hbehind⟩ :: xs, back, hblank, ?_,
          ⟨hfits, hconsistent⟩, ?_⟩
        · rw [← hsplit, hxs]
          simp [textOf, Piece.text]
        · dsimp only
          rw [if_neg hspelled.ne_eof]
          rcases houtcome with ⟨hback, hok⟩ | ⟨hblocked, problem, herror⟩
          · refine .inl ⟨hback, ?_⟩
            rw [hok]
            simp [Except.map, locate, Piece.text, byteLength_append, Nat.add_assoc]
          · refine .inr ⟨hblocked, problem, ?_⟩
            rw [herror]
            simp [Except.map, textOf, Piece.text, byteLength_append, Nat.add_assoc]

/-! ### Where the tokens of pieces are -/

theorem byteLength_pos {cs : List Char} (h : cs ≠ []) : 0 < byteLength cs := by
  obtain ⟨c, rest, rfl⟩ := List.exists_cons_of_ne_nil h
  rw [byteLength, String.utf8ByteSize_ofList, String.utf8Len_cons]
  exact Nat.add_pos_right _ c.utf8Size_pos

theorem Piece.byteLength_text_pos (x : Piece) : 0 < byteLength x.text := by
  obtain ⟨c, rest, hlexeme, -⟩ := x.spelled.inked.first
  exact byteLength_pos (by simp [Piece.text, hlexeme])

/-- The last token of pieces is the end of the text, and no other one is. -/
theorem locate_eq_append : ∀ (position : Nat) (xs : List Piece),
    ∃ body, locate position xs = body ++ [⟨.eof, position + byteLength (textOf xs)⟩] ∧
      body.map Located.token = xs.map Piece.token
  | position, [] => ⟨[], rfl, rfl⟩
  | position, x :: xs => by
    obtain ⟨body, hbody, htokens⟩ := locate_eq_append (position + byteLength x.text) xs
    refine ⟨⟨x.token, position⟩ :: body, ?_, by simp [htokens]⟩
    simp [locate, hbody, textOf, byteLength_append, Nat.add_assoc]

/-- A token of pieces stands behind some of them. -/
theorem exists_of_mem_locate : ∀ {position : Nat} {xs : List Piece} {t : Located},
    t ∈ locate position xs → ∃ ys zs, xs = ys ++ zs ∧
      t.position = position + byteLength (textOf ys)
  | position, [], t, h => by
    obtain rfl := List.mem_singleton.1 h
    exact ⟨[], [], rfl, rfl⟩
  | position, x :: xs, t, h => by
    rcases List.mem_cons.1 h with rfl | h
    · exact ⟨[], x :: xs, rfl, rfl⟩
    · obtain ⟨ys, zs, rfl, ht⟩ := exists_of_mem_locate h
      refine ⟨x :: ys, zs, rfl, ?_⟩
      rw [ht]
      simp [textOf, byteLength_append, Nat.add_assoc]

theorem pairwise_locate : ∀ (position : Nat) (xs : List Piece),
    (locate position xs).Pairwise fun t u => t.position < u.position
  | position, [] => List.pairwise_singleton _ _
  | position, x :: xs => by
    refine List.pairwise_cons.2 ⟨fun u hu => ?_, pairwise_locate _ xs⟩
    obtain ⟨ys, zs, -, hu⟩ := exists_of_mem_locate hu
    have hpos := x.byteLength_text_pos
    show position < u.position
    omega

/-- The first token of pieces is that of the first piece, or the end of the text. -/
theorem head?_locate (position : Nat) (xs : List Piece) : (locate position xs).head? =
    some ⟨(xs.head?.map Piece.token).getD .eof, position⟩ := by
  cases xs <;> rfl

/-- Of two neighbours among the tokens of pieces the first one is the token of a piece, and the
second one is the first token behind this piece. -/
theorem exists_of_infix_locate : ∀ {position : Nat} {xs : List Piece} {t u : Located},
    [t, u] <:+: locate position xs → ∃ ys x zs, xs = ys ++ x :: zs ∧
      t = ⟨x.token, position + byteLength (textOf ys)⟩ ∧
      u = ⟨(zs.head?.map Piece.token).getD .eof, t.position + byteLength x.text⟩
  | position, [], t, u, h => by
    have hlength := h.length_le
    simp [locate] at hlength
  | position, x :: xs, t, u, h => by
    rcases List.infix_cons_iff.1 h with h | h
    · obtain ⟨rfl, rest, hrest⟩ := List.cons_prefix_cons.1 h
      have hhead := head?_locate (position + byteLength x.text) xs
      rw [← hrest] at hhead
      exact ⟨[], x, xs, rfl, rfl, Option.some.inj hhead⟩
    · obtain ⟨ys, y, zs, rfl, rfl, hu⟩ := exists_of_infix_locate h
      refine ⟨x :: ys, y, zs, rfl, ?_, hu⟩
      simp [textOf, byteLength_append, Nat.add_assoc]

theorem Consistent.fits_head? {xs : List Piece} (h : Consistent operatorAllowed xs) :
    ((xs.head?.map Piece.token).getD .eof).Fits operatorAllowed := by
  cases xs with
  | nil => trivial
  | cons x xs => exact h.1

theorem Consistent.behind : ∀ {operatorAllowed : Bool} {ys : List Piece} {x : Piece}
    {zs : List Piece}, Consistent operatorAllowed (ys ++ x :: zs) →
      Consistent x.token.endsOperand zs
  | _, [], _, _, h => h.2
  | _, _ :: _, _, _, h => behind h.2

/-! ### Tokens and their text -/

/-- The characters between two positions of a text, which count bytes. -/
def textBetween (text : String) (start finish : Nat) : List Char :=
  (String.Pos.Raw.extract text ⟨start⟩ ⟨finish⟩).toList

theorem textBetween_eq {text : String} {front part back : List Char}
    (h : text.toList = front ++ (part ++ back)) :
    textBetween text (byteLength front) (byteLength front + byteLength part) = part := by
  have htext : text = String.ofList (front ++ part ++ back) := by
    rw [List.append_assoc, ← h, String.ofList_toList]
  rw [textBetween, byteLength, byteLength, String.utf8ByteSize_ofList, String.utf8ByteSize_ofList,
    htext, String.extract_of_valid, String.toList_ofList]

theorem textBetween_zero {text : String} {front back : List Char}
    (h : text.toList = front ++ back) : textBetween text 0 (byteLength front) = front := by
  have hsplit : text.toList = [] ++ (front ++ back) := h
  have hzero : byteLength [] = 0 := rfl
  have hfront := textBetween_eq hsplit
  rwa [hzero, Nat.zero_add] at hfront

/-- The place behind some characters of a text is a boundary between characters. -/
theorem isValid_byteLength {text : String} {front back : List Char}
    (h : text.toList = front ++ back) :
    String.Pos.Raw.IsValid text ⟨byteLength front⟩ := by
  rw [String.Pos.Raw.isValid_iff_exists_append]
  refine ⟨String.ofList front, String.ofList back, ?_, rfl⟩
  rw [← String.ofList_append, ← h, String.ofList_toList]

/-- Tokens account for a text: it is their spellings, with blanks around them. -/
structure Covers (text : String) (ts : List Located) : Prop where
  /-- The last token is the end of the text, which no other token is. -/
  ends : ∃ body, ts = body ++ [⟨.eof, text.utf8ByteSize⟩] ∧ ∀ t ∈ body, t.token ≠ .eof
  /-- Each token stands behind the one before it. -/
  increasing : ts.Pairwise fun t u => t.position < u.position
  /-- Tokens stand at boundaries between characters. -/
  boundaries : ∀ t ∈ ts, String.Pos.Raw.IsValid text ⟨t.position⟩
  /-- Before the first token there are blanks; it stands where no operator may. -/
  first : ∀ t ∈ ts.head?, IsBlank (textBetween text 0 t.position) ∧ t.token.Fits false
  /-- From a token to the next there are its spelling and blanks; whether the next one may be an
  operator is decided by the token before it. -/
  next : ∀ t u, [t, u] <:+: ts →
    (∃ lexeme blanks, textBetween text t.position u.position = lexeme ++ blanks ∧
      Spelling t.token lexeme ∧ IsBlank blanks) ∧ u.token.Fits t.token.endsOperand

/-- A text can be read up to a position, and no token begins there. -/
structure StopsAt (text : String) (position : Nat) : Prop where
  /-- The position is a boundary between characters. -/
  boundary : String.Pos.Raw.IsValid text ⟨position⟩
  /-- It is not the end of the text. -/
  before_end : position < text.utf8ByteSize
  /-- Before it there are spellings of tokens, with blanks around them. -/
  read : ∃ blanks xs, textBetween text 0 position = blanks ++ textOf xs ∧ IsBlank blanks ∧
    Consistent false xs
  /-- No token begins there. -/
  blocked : Blocked (textBetween text position text.utf8ByteSize)

theorem covers_of_pieces {text : String} {blanks : List Char} {xs : List Piece}
    (hblank : IsBlank blanks) (htext : text.toList = blanks ++ textOf xs)
    (hconsistent : Consistent false xs) : Covers text (locate (byteLength blanks) xs) := by
  have hsize : text.utf8ByteSize = byteLength blanks + byteLength (textOf xs) := by
    rw [← byteLength_append, ← htext, byteLength, String.ofList_toList]
  constructor
  case ends =>
    obtain ⟨body, hbody, htokens⟩ := locate_eq_append (byteLength blanks) xs
    refine ⟨body, hsize ▸ hbody, fun t ht => ?_⟩
    have hmem : t.token ∈ xs.map Piece.token := htokens ▸ List.mem_map_of_mem ht
    obtain ⟨x, -, hx⟩ := List.mem_map.1 hmem
    exact hx ▸ x.spelled.ne_eof
  case increasing => exact pairwise_locate _ xs
  case boundaries =>
    intro t ht
    obtain ⟨ys, zs, rfl, hposition⟩ := exists_of_mem_locate ht
    have hfront : text.toList = (blanks ++ textOf ys) ++ textOf zs := by
      rw [htext]
      simp [textOf]
    rw [hposition, ← byteLength_append]
    exact isValid_byteLength hfront
  case first =>
    intro t ht
    rw [head?_locate] at ht
    cases ht
    exact ⟨(textBetween_zero htext).symm ▸ hblank, hconsistent.fits_head?⟩
  case next =>
    intro t u htu
    obtain ⟨ys, x, zs, rfl, rfl, rfl⟩ := exists_of_infix_locate htu
    have hsplit : text.toList = (blanks ++ textOf ys) ++ (x.text ++ textOf zs) := by
      rw [htext]
      simp [textOf]
    refine ⟨⟨x.lexeme, x.blanks, ?_, x.spelled, x.blank⟩, hconsistent.behind.fits_head?⟩
    rw [← byteLength_append]
    exact textBetween_eq hsplit

theorem stopsAt_of_pieces {text : String} {blanks back : List Char} {xs : List Piece}
    (hblank : IsBlank blanks) (htext : text.toList = blanks ++ textOf xs ++ back)
    (hconsistent : Consistent false xs) (hback : Blocked back) :
    StopsAt text (byteLength (blanks ++ textOf xs)) := by
  have hsize : text.utf8ByteSize = byteLength (blanks ++ textOf xs) + byteLength back := by
    rw [← byteLength_append, ← htext, byteLength, String.ofList_toList]
  constructor
  case boundary => exact isValid_byteLength htext
  case before_end =>
    have hpos := byteLength_pos hback.ne_nil
    omega
  case read =>
    exact ⟨blanks, xs, textBetween_zero htext, hblank, hconsistent⟩
  case blocked =>
    have hsplit : text.toList = (blanks ++ textOf xs) ++ (back ++ []) := by simpa using htext
    rw [hsize, textBetween_eq hsplit]
    exact hback

/-- The pieces of a text that has tokens. -/
theorem exists_pieces_of_tokenize {text : String} {ts : List Located} (h : tokenize text = .ok ts) :
    ∃ blanks xs, IsBlank blanks ∧ text.toList = blanks ++ textOf xs ∧ Consistent false xs ∧
      ts = locate (byteLength blanks) xs := by
  obtain ⟨blanks, xs, back, hblank, htext, hconsistent, ⟨rfl, hok⟩ | ⟨-, problem, herror⟩⟩ :=
    tokenizeFrom_spec false 0 (Nat.lt_succ_self text.toList.length)
  · rw [tokenize, hok] at h
    cases h
    exact ⟨blanks, xs, hblank, by simpa using htext, hconsistent, by rw [Nat.zero_add]⟩
  · rw [tokenize, herror] at h
    cases h

theorem covers_of_tokenize {text : String} {ts : List Located} (h : tokenize text = .ok ts) :
    Covers text ts := by
  obtain ⟨blanks, xs, hblank, htext, hconsistent, rfl⟩ := exists_pieces_of_tokenize h
  exact covers_of_pieces hblank htext hconsistent

theorem stopsAt_of_tokenize {text : String} {e : QueryError} (h : tokenize text = .error e) :
    ∃ position problem, e = .syntaxAt position problem ∧ StopsAt text position := by
  obtain ⟨blanks, xs, back, hblank, htext, hconsistent, ⟨-, hok⟩ | ⟨hback, problem, herror⟩⟩ :=
    tokenizeFrom_spec false 0 (Nat.lt_succ_self text.toList.length)
  · rw [tokenize, hok] at h
    cases h
  · rw [tokenize, herror, Nat.zero_add] at h
    cases h
    exact ⟨_, problem, rfl, stopsAt_of_pieces hblank (by simpa using htext) hconsistent hback⟩

/-- Every text has tokens that account for all of it, or the lexer complains about a place up to
which it can be read and where no token begins. -/
theorem tokenize_covers (text : String) :
    (∃ ts, tokenize text = .ok ts ∧ Covers text ts) ∨
      ∃ position problem, tokenize text = .error (.syntaxAt position problem) ∧
        StopsAt text position := by
  cases h : tokenize text with
  | ok ts => exact .inl ⟨ts, rfl, covers_of_tokenize h⟩
  | error e =>
    obtain ⟨position, problem, rfl, hstops⟩ := stopsAt_of_tokenize h
    exact .inr ⟨position, problem, rfl, hstops⟩

end MarkupRules.Query
