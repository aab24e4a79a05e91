/-
# Levels of nesting and levels of evaluation

The parser counts expressions that stand in parentheses, brackets and arguments of each other, and
evaluation counts all expressions that stand inside each other, operands too. What compiles has
enough levels when it is nested within them, which is sure of a text with no more characters than
the limit. A chain of operators is no nesting for the parser: a sum of ones is accepted at any
length, and beyond the limit it has no value anywhere.

Key definitions: `sumText`, `sumOfOnes`.
Key theorems: `compiled_runs_within_levels`, `compile_sumText`, `nestedWithin_sumOfOnes`,
`evaluate_sumOfOnes`.
-/
import MarkupRules.Proofs.Query.Lexemes

namespace MarkupRules.Query

/-! ### Enough levels -/

/-- A compiled expression does not run out of levels if it is nested within them, or if its text
is no longer than the limit. -/
theorem compiled_runs_within_levels {source : String} {context : Context} {q : Query}
    (h : compile source context = .ok q)
    (hdeep : q.expr.NestedWithin (depthLimit + 1) ∨ source.length ≤ depthLimit)
    (ix : Index) (p : Place) (scope : Scope) (limit : Nat) :
    ix.evaluate q p scope ≠ .error (.tooDeep limit) := by
  apply Index.eval_ne_tooDeep
  rcases hdeep with hnested | hshort
  · exact hnested
  · exact (sized_of_compile h).nested.mono (Nat.succ_le_succ hshort)

/-- The number of books, on the shelf. -/
theorem compiled_runs_within_levels_on_shelf :
    let books : Expr := .path .root [Step.anywhere, .mk .child (.name none "book") []]
    let q : Query := ⟨"count(//book)", .call ⟨"count"⟩ [books]⟩
    compile "count(//book)" (.ofDialect .legacy) = .ok q ∧
      "count(//book)".length ≤ depthLimit ∧
      (Index.ofDocument .shelf).evaluate q (.node 0) .empty ≠ .error (.tooDeep depthLimit) := by
  intro books q
  have htokens : tokenize "count(//book)" = .ok [⟨.name none "count", 0⟩, ⟨.leftParen, 5⟩,
      ⟨.doubleSlash, 6⟩, ⟨.name none "book", 8⟩, ⟨.rightParen, 12⟩, ⟨.eof, 13⟩] := rfl
  have hcompiled : compile "count(//book)" (.ofDialect .legacy) = .ok q :=
    compile_eq_ok_iff.2 ⟨_, htokens, rfl, rfl⟩
  have hshort : "count(//book)".length ≤ depthLimit := by decide
  exact ⟨hcompiled, hshort, compiled_runs_within_levels hcompiled (.inr hshort) _ _ _ _⟩

/-! ### Sums -/

/-- A plus sign and a one, a number of times. -/
def moreOnes (additions : Nat) : List Char :=
  (List.replicate additions ['+', '1']).flatten

/-- The text of a sum of ones, with the given number of plus signs. -/
def sumText (additions : Nat) : String :=
  String.ofList ('1' :: moreOnes additions)

/-- A sum of ones, with the given number of plus signs. -/
def sumOfOnes : Nat → Expr
  | 0 => .number (Token.numberValue "1")
  | additions + 1 => .arith .add (sumOfOnes additions) (.number (Token.numberValue "1"))

/-- The tokens of a plus sign and a one, a number of times. -/
def moreOnesTokens (additions : Nat) : List Token :=
  (List.replicate additions [.plus, .number "1"]).flatten

theorem moreOnesTokens_succ (additions : Nat) :
    moreOnesTokens (additions + 1) = moreOnesTokens additions ++ [.plus, .number "1"] := by
  simp [moreOnesTokens, List.replicate_succ']

theorem takeToken_one (operatorAllowed : Bool) (additions : Nat) :
    takeToken operatorAllowed ('1' :: moreOnes additions) =
      .ok ⟨.number "1", ['1'], moreOnes additions⟩ := by
  cases additions <;> rfl

theorem lexes_moreOnes : ∀ additions : Nat,
    Lexes true (moreOnes additions) (moreOnesTokens additions)
  | 0 => .nil true
  | additions + 1 =>
    .sign (by decide) rfl (by decide)
      (.sign (by decide) (takeToken_one _ additions) (by decide) (lexes_moreOnes additions))

/-- A sum is an expression at every level of nesting: it holds nothing in parentheses. -/
theorem writes_sumOfOnes {context : Context} {nested : Phrase Expr} (additions : Nat) :
    WritesExpr context nested (.number "1" :: moreOnesTokens additions) (sumOfOnes additions) := by
  have hone : WritesJoined .product (WritesSigned (WritesJoined .union (WritesPath context nested)))
      [.number "1"] (.number (Token.numberValue "1")) :=
    .one (.plain (.one (.bare (.bare (.number "1")))))
  have hsum : ∀ additions, WritesJoined .sum (WritesJoined .product
      (WritesSigned (WritesJoined .union (WritesPath context nested))))
      (.number "1" :: moreOnesTokens additions) (sumOfOnes additions) := by
    intro additions
    induction additions with
    | zero => exact .one hone
    | succ additions ih =>
      rw [moreOnesTokens_succ]
      exact .more ih .plus hone
  exact .one (.one (.one (.one (hsum additions))))

/-- A sum of ones compiles, however long it is. -/
theorem compile_sumText (additions : Nat) (context : Context) :
    compile (sumText additions) context = .ok ⟨sumText additions, sumOfOnes additions⟩ := by
  refine compile_of_lexes ?_ (writes_sumOfOnes additions)
  rw [sumText, String.toList_ofList]
  exact .sign (by decide) (takeToken_one false additions) (by decide) (lexes_moreOnes additions)

/-- With no more levels than plus signs a sum runs out of levels. -/
theorem eval_sumOfOnes {ix : Index} {focus : Focus} {scope : Scope} : ∀ {levels additions : Nat},
    levels ≤ additions →
      ix.eval levels (sumOfOnes additions) focus scope = .error (.tooDeep depthLimit)
  | 0, _, _ => rfl
  | levels + 1, additions + 1, h => by
    have hleft : ix.eval levels (sumOfOnes additions) focus scope = .error (.tooDeep depthLimit) :=
      eval_sumOfOnes (Nat.le_of_succ_le_succ h)
    exact bind_eq_error_iff.2 (.inl hleft)

/-- A sum needs one level for each plus sign, and one for the ones. -/
theorem nestedWithin_sumOfOnes : ∀ {levels additions : Nat},
    (sumOfOnes additions).NestedWithin levels ↔ additions < levels
  | 0, additions => ⟨False.elim, fun h => absurd h (Nat.not_lt_zero additions)⟩
  | levels + 1, 0 => ⟨fun _ => Nat.succ_pos levels, fun _ => List.forall_mem_nil _⟩
  | levels + 1, additions + 1 => by
    have hone : (sumOfOnes 0).NestedWithin levels ↔ 0 < levels := nestedWithin_sumOfOnes
    show (∀ part ∈ [sumOfOnes additions, sumOfOnes 0], part.NestedWithin levels) ↔ _
    rw [List.forall_mem_cons, List.forall_mem_singleton, nestedWithin_sumOfOnes, hone]
    omega

/-- A sum runs out of levels, on whatever document, exactly beyond the limit. -/
theorem evaluate_sumOfOnes {additions : Nat} (source : String) (ix : Index) (p : Place)
    (scope : Scope) :
    ix.evaluate ⟨source, sumOfOnes additions⟩ p scope = .error (.tooDeep depthLimit) ↔
      depthLimit < additions := by
  constructor
  · intro h
    by_contra hle
    have hnested : (sumOfOnes additions).NestedWithin (depthLimit + 1) :=
      nestedWithin_sumOfOnes.2 (Nat.lt_succ_of_le (Nat.le_of_not_lt hle))
    exact Index.eval_ne_tooDeep hnested h
  · exact fun h => eval_sumOfOnes h

/-- A sum of one hundred and thirty ones compiles and has no value at the root of the shelf. -/
theorem long_sum_without_value :
    compile (sumText 129) (.ofDialect .legacy) = .ok ⟨sumText 129, sumOfOnes 129⟩ ∧
      (Index.ofDocument .shelf).evaluate ⟨sumText 129, sumOfOnes 129⟩ (.node 0) .empty =
        .error (.tooDeep depthLimit) :=
  ⟨compile_sumText 129 _, (evaluate_sumOfOnes _ _ _ _).2 (by decide)⟩

end MarkupRules.Query
