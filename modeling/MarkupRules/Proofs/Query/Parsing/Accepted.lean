/-
# What the parser accepts

A list of tokens is an expression for the parser exactly if the grammar writes it. More levels of
nesting make no difference as long as they are not used up, so that nothing but its nesting keeps
an expression of the grammar from being accepted.

Key definitions: `Falls`, `Parse.Upto`.
Key theorems: `upto_parseExpr`, `Writes.unique`, `parse_accepts_grammar`.
-/
import MarkupRules.Proofs.Query.Parsing.Complete

namespace MarkupRules.Query

variable {α : Type} {context : Context} {nested : Parse Expr} {phrase : Phrase Expr}

/-! ### Whole lists of tokens -/

theorem spells_of_ne_eof {rest : List Located} : ∀ {ts : List Located},
    (∀ t ∈ ts, t.token ≠ .eof) → Spells (ts ++ rest) (ts.map Located.token) rest
  | [], _ => rfl
  | t :: ts, h => by
    rw [List.forall_mem_cons] at h
    exact ⟨rfl, h.1, spells_of_ne_eof h.2⟩

/-- Up to the end of the text, all tokens of a list stand at its front. -/
theorem Spells.eq_map {w : List Token} {rest : List Located} {position : Nat}
    (hrest : current rest = .eof) : ∀ {ts : List Located}, (∀ t ∈ ts, t.token ≠ .eof) →
      Spells (ts ++ [⟨.eof, position⟩]) w rest → w = ts.map Located.token
  | [], _, h => by
    cases w with
    | nil => rfl
    | cons t w => exact absurd h.1.symm h.2.1
  | t :: ts, hts, h => by
    rw [List.forall_mem_cons] at hts
    cases w with
    | nil =>
      cases h
      exact absurd hrest hts.1
    | cons u w =>
      obtain ⟨rfl, -, h⟩ := h
      rw [eq_map hrest hts.2 h]
      rfl

/-! ### Giving up -/

/-- One outcome is another, or that expressions are nested too deeply. -/
def Falls (x y : Except QueryError α) : Prop :=
  x = y ∨ x = .error (.tooDeep depthLimit)

theorem Falls.refl (x : Except QueryError α) : Falls x x :=
  .inl rfl

theorem Falls.bind {β : Type} {x y : Except QueryError α} {f g : α → Except QueryError β}
    (h : Falls x y) (hfg : ∀ a, Falls (f a) (g a)) : Falls (x >>= f) (y >>= g) := by
  rcases h with rfl | rfl
  · cases x with
    | error cause => exact .refl _
    | ok a => exact hfg a
  · exact .inr rfl

/-- A parser does as another does, or gives up. -/
def Parse.Upto (p q : Parse α) : Prop :=
  ∀ ts, Falls (p ts) (q ts)

section Upto

variable {deeper : Parse Expr}

theorem upto_chain {operator? : Token → Option (Expr → Expr → Expr)} {p q : Parse Expr}
    (h : Parse.Upto p q) :
    ∀ (fuel : Nat) (e : Expr), Parse.Upto (chain operator? p fuel e) (chain operator? q fuel e)
  | 0, _, _ => .refl _
  | fuel + 1, e, ts => by
    unfold chain
    split
    · exact .refl _
    · exact (h _).bind fun _ => upto_chain h fuel _ _

theorem upto_level {operator? : Token → Option (Expr → Expr → Expr)} {p q : Parse Expr}
    (h : Parse.Upto p q) : Parse.Upto (level operator? p) (level operator? q) := by
  intro ts
  refine (h ts).bind fun ⟨e, rest⟩ => ?_
  dsimp only
  split
  · exact .refl _
  · exact upto_chain h _ _ _

theorem upto_unary {p q : Parse Expr} (h : Parse.Upto p q) :
    ∀ ts, Falls (unary p ts) (unary q ts)
  | [] => h []
  | t :: ts => by
    unfold unary
    split
    · exact (upto_unary h ts).bind fun _ => .refl _
    · exact h _

variable (h : nested.Upto deeper)

include h

theorem upto_predicates : Parse.Upto (predicates nested) (predicates deeper) := by
  have hupTo : ∀ fuel, Parse.Upto (predicatesUpTo nested fuel) (predicatesUpTo deeper fuel) := by
    intro fuel
    induction fuel with
    | zero => exact fun _ => .refl _
    | succ fuel ih =>
      intro ts
      unfold predicatesUpTo
      split
      · exact (h _).bind fun _ => (Falls.refl _).bind fun _ => (ih _).bind fun _ => .refl _
      · exact .refl _
  intro ts
  rw [predicates_eq_upTo, predicates_eq_upTo]
  exact hupTo _ ts

theorem upto_arguments : ∀ fuel : Nat, Parse.Upto (arguments nested fuel) (arguments deeper fuel)
  | 0, _ => .refl _
  | fuel + 1, ts => by
    refine (h ts).bind fun ⟨e, rest⟩ => ?_
    dsimp only
    split
    · exact (upto_arguments fuel _).bind fun _ => .refl _
    · exact .refl _

theorem upto_step : Parse.Upto (step context nested) (step context deeper) := by
  intro ts
  unfold step
  split
  · exact .refl _
  · exact .refl _
  · exact (Falls.refl _).bind fun _ => (Falls.refl _).bind fun _ =>
      (upto_predicates h _).bind fun _ => .refl _

theorem upto_relativePath : Parse.Upto (relativePath (step context nested))
    (relativePath (step context deeper)) := by
  have hmore : ∀ fuel, Parse.Upto (moreSteps (step context nested) fuel)
      (moreSteps (step context deeper) fuel) := by
    intro fuel
    induction fuel with
    | zero => exact fun _ => .refl _
    | succ fuel ih =>
      intro ts
      unfold moreSteps
      split
      · exact (upto_step h _).bind fun _ => (ih _).bind fun _ => .refl _
      · exact (upto_step h _).bind fun _ => (ih _).bind fun _ => .refl _
      · exact .refl _
  exact fun ts => (upto_step h ts).bind fun _ => (hmore _ _).bind fun _ => .refl _

theorem upto_primary : Parse.Upto (primary context nested) (primary context deeper) := by
  intro ts
  unfold primary
  split
  · exact .refl _
  · exact .refl _
  · exact .refl _
  · exact (h _).bind fun _ => .refl _
  · refine Falls.bind ((Falls.refl _).bind fun inside => ?_) fun _ => .refl _
    split
    · exact .refl _
    · exact upto_arguments h _ _
  · exact .refl _

theorem upto_path : Parse.Upto (path context nested) (path context deeper) := by
  intro ts
  unfold path
  dsimp only
  split
  · split
    · exact (upto_relativePath h _).bind fun _ => .refl _
    · exact .refl _
  · exact (upto_relativePath h _).bind fun _ => .refl _
  · split
    · have hfilter : Falls (filterExpr context nested ts) (filterExpr context deeper ts) :=
        (upto_primary h ts).bind fun _ => (upto_predicates h _).bind fun _ => .refl _
      refine hfilter.bind fun ⟨e, rest⟩ => ?_
      dsimp only
      split
      · exact (upto_relativePath h _).bind fun _ => .refl _
      · exact (upto_relativePath h _).bind fun _ => .refl _
      · exact .refl _
    · exact (upto_relativePath h _).bind fun _ => .refl _

theorem upto_orExpr : Parse.Upto (orExpr context nested) (orExpr context deeper) :=
  upto_level (upto_level (upto_level (upto_level (upto_level (upto_level
    (upto_unary (upto_level (upto_path h))))))))

end Upto

/-- With fewer levels of nesting a parser does as with more, or gives up. -/
theorem upto_parseExpr : ∀ {depth deeper : Nat}, depth ≤ deeper →
    Parse.Upto (parseExpr context depth) (parseExpr context deeper)
  | 0, _, _ => fun _ => .inr rfl
  | _ + 1, 0, h => absurd h (Nat.not_succ_le_zero _)
  | _ + 1, _ + 1, h => upto_orExpr (upto_parseExpr (Nat.le_of_succ_le_succ h))

/-! ### What is accepted -/

theorem parse_eq_ok_iff {ts : List Located} (hts : ∀ t ∈ ts, t.token ≠ .eof) (position : Nat)
    (e : Expr) : parse context (ts ++ [⟨.eof, position⟩]) = .ok e ↔
      Writes context depthLimit (ts.map Located.token) e := by
  unfold parse
  constructor
  · intro h
    obtain ⟨⟨e, rest⟩, he, h⟩ := bind_eq_ok_iff.1 h
    dsimp only at h
    split at h
    · next hrest =>
      cases h
      obtain ⟨w, hw, hwrites⟩ := sound_parseExpr depthLimit he
      exact hw.eq_map hrest hts ▸ hwrites
    · cases h
  · intro h
    have he : parseExpr context depthLimit (ts ++ [⟨.eof, position⟩]) =
        .ok (e, [⟨.eof, position⟩]) :=
      complete_parseExpr depthLimit h (spells_of_ne_eof hts) (Nat.lt_succ_self 0)
    rw [he, ok_bind]
    rfl

/-- What is written in some levels of nesting is taken with more of them. -/
theorem parseExpr_of_writes {depth deeper : Nat} (hle : depth ≤ deeper) {w : List Token} {e : Expr}
    (h : Writes context depth w e) {ts rest : List Located} (hw : Spells ts w rest)
    (hgrip : (current rest).grip < 1) : parseExpr context deeper ts = .ok (e, rest) := by
  have hfound : parseExpr context depth ts = .ok (e, rest) := complete_parseExpr depth h hw hgrip
  rcases upto_parseExpr hle ts with heq | herror
  · exact heq.symm.trans hfound
  · rw [hfound] at herror
    cases herror

/-- No list of tokens writes two expressions. -/
theorem Writes.unique {depth depth' : Nat} {w : List Token} {e e' : Expr}
    (h : Writes context depth w e) (h' : Writes context depth' w e') (hw : ∀ t ∈ w, t ≠ .eof) :
    e = e' := by
  have hspells : Spells (w.map (⟨·, 0⟩) ++ []) ((w.map (⟨·, 0⟩)).map Located.token) [] :=
    spells_of_ne_eof (by simpa using hw)
  rw [List.map_map, Function.comp_def, List.map_id'] at hspells
  have he := parseExpr_of_writes (Nat.le_max_left depth depth') h hspells (Nat.lt_succ_self 0)
  have he' := parseExpr_of_writes (Nat.le_max_right depth depth') h' hspells (Nat.lt_succ_self 0)
  cases he.symm.trans he'
  rfl

/-- Of an expression of the grammar only the nesting can be refused. -/
theorem parse_eq_ok_or_tooDeep {ts : List Located} (hts : ∀ t ∈ ts, t.token ≠ .eof)
    (position : Nat) {e : Expr} {depth : Nat}
    (h : Writes context depth (ts.map Located.token) e) :
    parse context (ts ++ [⟨.eof, position⟩]) = .ok e ∨
      parse context (ts ++ [⟨.eof, position⟩]) = .error (.tooDeep depthLimit) := by
  have hspells : Spells (ts ++ [⟨.eof, position⟩]) _ _ := spells_of_ne_eof hts
  have hends : (current [⟨.eof, position⟩]).grip < 1 := Nat.lt_succ_self 0
  unfold parse
  rcases Nat.le_total depth depthLimit with hle | hle
  · left
    rw [parseExpr_of_writes hle h hspells hends, ok_bind]
    rfl
  · have hfound := complete_parseExpr depth h hspells hends
    rcases upto_parseExpr hle (ts ++ [⟨.eof, position⟩]) with heq | herror
    · left
      rw [heq, hfound, ok_bind]
      rfl
    · right
      rw [herror]
      rfl

/-- The parser gives an expression exactly for the tokens that write it within the limit of
nesting, and of what is written beyond the limit it complains about nothing but the nesting. -/
theorem parse_accepts_grammar {ts : List Located} (hts : ∀ t ∈ ts, t.token ≠ .eof)
    (position : Nat) (context : Context) (e : Expr) :
    (parse context (ts ++ [⟨.eof, position⟩]) = .ok e ↔
      Writes context depthLimit (ts.map Located.token) e) ∧
    ((∃ depth, Writes context depth (ts.map Located.token) e) →
      parse context (ts ++ [⟨.eof, position⟩]) = .ok e ∨
        parse context (ts ++ [⟨.eof, position⟩]) = .error (.tooDeep depthLimit)) :=
  ⟨parse_eq_ok_iff hts position e, fun ⟨_, h⟩ => parse_eq_ok_or_tooDeep hts position h⟩

/-- The tokens of `-a | //b[not(@c)]`: the sign is put in front of the whole union. -/
theorem parse_accepts_negated_union :
    let ts : List Located := [⟨.minus, 0⟩, ⟨.name none "a", 1⟩, ⟨.pipe, 3⟩, ⟨.doubleSlash, 5⟩,
      ⟨.name none "b", 7⟩, ⟨.leftBracket, 8⟩, ⟨.name none "not", 9⟩, ⟨.leftParen, 12⟩,
      ⟨.atSign, 13⟩, ⟨.name none "c", 14⟩, ⟨.rightParen, 15⟩, ⟨.rightBracket, 16⟩]
    let lacking : Expr := .call ⟨"not"⟩ [.path .context [.mk .attr (.name none "c") []]]
    let e : Expr := .negate (.union (.path .context [.mk .child (.name none "a") []])
      (.path .root [Step.anywhere, .mk .child (.name none "b") [lacking]]))
    (∀ t ∈ ts, t.token ≠ .eof) ∧
      Writes (.ofDialect .legacy) depthLimit (ts.map Located.token) e ∧
      parse (.ofDialect .legacy) (ts ++ [⟨.eof, 17⟩]) = .ok e := by
  intro ts lacking e
  have hts : ∀ t ∈ ts, t.token ≠ .eof := by decide
  have hparsed : parse (.ofDialect .legacy) (ts ++ [⟨.eof, 17⟩]) = .ok e := rfl
  exact ⟨hts, (parse_accepts_grammar hts 17 (.ofDialect .legacy) e).1.1 hparsed, hparsed⟩

end MarkupRules.Query
