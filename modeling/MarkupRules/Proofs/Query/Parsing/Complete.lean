/-
# What is written is taken

A parser takes all tokens that write a thing, whatever follows, as long as what follows does not
belong to the thing. What may follow is said by a grip on what stands in front: a token with a
weaker grip than that of a level ends the operands of the level.

Key definitions: `Token.grip`, `Parse.Complete`, `Phrase.Starts`.
Key theorems: `complete_level`, `complete_step`, `complete_path`, `complete_parseExpr`.
-/
import MarkupRules.Proofs.Query.Parsing.Sound

namespace MarkupRules.Query

variable {α : Type} {context : Context} {nested : Parse Expr} {phrase : Phrase Expr}

/-! ### What may follow -/

/-- How tightly a token holds on to what stands in front of it: not at all if it ends an
expression, as its level if it is an operator, tighter if it goes on with a path or a predicate,
and tightest if it stands only where an operand starts or belongs to a name in front of it. -/
def Token.grip : Token → Nat
  | rightParen | rightBracket | comma | eof => 0
  | or => 1
  | and => 2
  | equal | notEqual => 3
  | less | lessEqual | greater | greaterEqual => 4
  | plus | minus => 5
  | multiply | div | mod => 6
  | pipe => 7
  | slash | doubleSlash => 8
  | leftBracket => 9
  | _ => 10

/-- The grip of the operators of a level. -/
def Tier.grip : Tier → Nat
  | disjunction => 1
  | conjunction => 2
  | equality => 3
  | order => 4
  | sum => 5
  | product => 6
  | union => 7

theorem Joins.grip_eq {tier : Tier} {t : Token} {combine : Expr → Expr → Expr}
    (h : Joins tier t combine) : t.grip = tier.grip := by
  cases h <;> rfl

theorem Tier.operator?_eq_none {tier : Tier} {t : Token} (h : t.grip < tier.grip) :
    tier.operator? t = none := by
  rcases hop : tier.operator? t with _ | combine
  · rfl
  · exact absurd (operator?_eq_some_iff.1 hop).grip_eq (Nat.ne_of_lt h)

/-- A parser takes all that writes a thing if nothing with a tight grip follows. -/
def Parse.Complete (p : Parse α) (phrase : Phrase α) (bound : Nat) : Prop :=
  ∀ ⦃w a⦄, phrase w a → ∀ ⦃ts rest⦄, Spells ts w rest → (current rest).grip < bound →
    p ts = .ok (a, rest)

theorem expectToken_eq_ok {t : Token} {ts : List Located} (h : current ts = t) :
    expectToken t ts = .ok ts.tail :=
  expectToken_eq_ok_iff.2 ⟨h, rfl⟩

theorem lt_length_of_current {ts : List Located} (h : current ts ≠ .eof) :
    ts.tail.length < ts.length := by
  cases ts with
  | nil => exact absurd rfl h
  | cons t ts => simp

/-! ### Operators are taken -/

theorem chain_eq_of_none {operator? : Token → Option (Expr → Expr → Expr)} {operand : Parse Expr}
    (fuel : Nat) {e : Expr} {ts : List Located} (h : operator? (current ts) = none) :
    chain operator? operand fuel e ts = .ok (e, ts) := by
  cases fuel with
  | zero => rfl
  | succ fuel => rw [chain, h]

/-- Behind operands and operators that make an expression the parser goes on with it. -/
theorem level_eq_chain {tier : Tier} {operand : Parse Expr}
    (hoperand : operand.Complete phrase (tier.grip + 1)) {w : List Token} {e : Expr}
    (hwrites : WritesJoined tier phrase w e) : ∀ {ts mid : List Located}, Spells ts w mid →
      (current mid).grip < tier.grip + 1 → ∃ fuel, mid.length ≤ fuel ∧
        level tier.operator? operand ts = chain tier.operator? operand fuel e mid := by
  -- The rules put operands behind each other as the parser does, so behind all operands but the
  -- last one the parser stands in front of an operator, with fuel for what is left.
  induction hwrites with
  | one h =>
    intro ts mid hw hgrip
    refine ⟨mid.length, Nat.le_refl _, ?_⟩
    rw [level, hoperand h hw hgrip, ok_bind]
    dsimp only
    split
    · next hnone => rw [chain_eq_of_none _ (Option.isNone_iff_eq_none.1 hnone)]
    · rfl
  | more _ hjoins hright ih =>
    intro ts mid hw hgrip
    obtain ⟨front, hfront, hcurrent, hne, hback⟩ := spells_append.1 hw
    have hgripFront : (current front).grip < tier.grip + 1 := by
      rw [hcurrent, hjoins.grip_eq]
      exact Nat.lt_succ_self _
    obtain ⟨fuel, hfuel, heq⟩ := ih hfront hgripFront
    have hshorter := lt_length_of_current (hcurrent ▸ hne)
    have hlength := hback.length_eq
    obtain ⟨fuel, rfl⟩ := Nat.exists_eq_add_one.2 (show 0 < fuel by omega)
    refine ⟨fuel, by omega, ?_⟩
    rw [heq, chain, hcurrent, Tier.operator?_eq_some_iff.2 hjoins]
    dsimp only
    rw [hoperand hright hback hgrip, ok_bind]

theorem complete_level (tier : Tier) {operand : Parse Expr}
    (hoperand : operand.Complete phrase (tier.grip + 1)) :
    Parse.Complete (level tier.operator? operand) (WritesJoined tier phrase) tier.grip := by
  intro w e hwrites ts rest hw hgrip
  obtain ⟨fuel, -, heq⟩ := level_eq_chain hoperand hwrites hw (Nat.lt_succ_of_lt hgrip)
  rw [heq, chain_eq_of_none _ (Tier.operator?_eq_none hgrip)]

/-- All that writes a thing starts with a token of the given kind. -/
def Phrase.Starts (phrase : Phrase α) (kind : Token → Prop) : Prop :=
  ∀ ⦃w a⦄, phrase w a → ∃ t v, w = t :: v ∧ kind t

theorem Phrase.Starts.joined {tier : Tier} {kind : Token → Prop} (h : phrase.Starts kind) :
    Phrase.Starts (WritesJoined tier phrase) kind := by
  intro w e hwrites
  induction hwrites with
  | one hone => exact h hone
  | more _ _ _ ih =>
    obtain ⟨t, v, rfl, ht⟩ := ih
    exact ⟨t, _, rfl, ht⟩

/-- The first token of what starts with a kind of token. -/
theorem Phrase.Starts.current {phrase : Phrase α} {kind : Token → Prop} (h : phrase.Starts kind)
    {w : List Token} {a : α} (hwrites : phrase w a) {ts rest : List Located}
    (hw : Spells ts w rest) : kind (current ts) := by
  obtain ⟨t, v, rfl, ht⟩ := h hwrites
  exact hw.1 ▸ ht

theorem complete_unary {operand : Parse Expr} {bound : Nat}
    (hoperand : operand.Complete phrase bound) (hstarts : phrase.Starts (· ≠ .minus)) :
    Parse.Complete (unary operand) (WritesSigned phrase) bound := by
  intro w e hwrites
  induction hwrites with
  | plain h =>
    intro ts rest hw hgrip
    cases ts with
    | nil => exact hoperand h hw hgrip
    | cons t ts =>
      have hminus : t.token ≠ .minus := hstarts.current h hw
      rw [unary, if_neg hminus]
      exact hoperand h hw hgrip
  | minus _ ih =>
    intro ts rest hw hgrip
    obtain ⟨hcurrent, -, hw⟩ := hw
    cases ts with
    | nil => cases hcurrent
    | cons t ts =>
      have hminus : t.token = .minus := hcurrent
      have hrest : unary operand ts = .ok (_, rest) := ih hw hgrip
      rw [unary, if_pos hminus, hrest, ok_bind]

/-! ### Predicates and arguments are taken -/

theorem predicates_eq_upTo (ts : List Located) :
    predicates nested ts = predicatesUpTo nested ts.length ts := by
  unfold predicates
  split
  · rfl
  · next h =>
    cases ts with
    | nil => rfl
    | cons t ts => rw [List.length_cons, predicatesUpTo, if_neg h]

theorem complete_predicatesUpTo (hnested : nested.Complete phrase 1) {w : List Token}
    {es : List Expr} (hwrites : WritesPredicates phrase w es) : ∀ {ts rest : List Located}
      (fuel : Nat), ts.length ≤ fuel → Spells ts w rest → (current rest).grip < 9 →
        predicatesUpTo nested fuel ts = .ok (es, rest) := by
  induction hwrites with
  | none =>
    intro ts rest fuel _ hw hgrip
    cases hw
    have hopen : current ts ≠ .leftBracket := by
      intro h
      simp [h, Token.grip] at hgrip
    cases fuel with
    | zero => rfl
    | succ fuel => rw [predicatesUpTo, if_neg hopen]
  | more he _ ih =>
    intro ts rest fuel hfuel hw hgrip
    obtain ⟨mid, ⟨hopen, hne, hfront⟩, hclose, -, hback⟩ := spells_append.1 hw
    have hshorter := lt_length_of_current (hopen ▸ hne)
    have hlength := hfront.length_eq
    have htail : mid.tail.length ≤ mid.length := by simp
    obtain ⟨fuel, rfl⟩ := Nat.exists_eq_add_one.2 (show 0 < fuel by omega)
    have hnestedEq := hnested he hfront (by simp [hclose, Token.grip])
    rw [predicatesUpTo, if_pos hopen, hnestedEq, ok_bind]
    dsimp only
    rw [expectToken_eq_ok hclose, ok_bind, ih fuel (by omega) hback hgrip, ok_bind]

theorem complete_predicates (hnested : nested.Complete phrase 1) :
    Parse.Complete (predicates nested) (WritesPredicates phrase) 9 := by
  intro w es hwrites ts rest hw hgrip
  rw [predicates_eq_upTo]
  exact complete_predicatesUpTo hnested hwrites _ (Nat.le_refl _) hw hgrip

/-- Predicates do not go on with what their step tests. -/
theorem WritesPredicates.grip_lt {w : List Token} {es : List Expr}
    (h : WritesPredicates phrase w es) {ts rest : List Located} (hw : Spells ts w rest)
    (hgrip : (current rest).grip < 9) : (current ts).grip < 10 := by
  cases h with
  | none => exact hw ▸ Nat.lt_succ_of_lt hgrip
  | more => simp [hw.1, Token.grip]

theorem complete_arguments (hnested : nested.Complete phrase 1) {w : List Token}
    {es : List Expr} (hwrites : WritesArguments phrase w es) : ∀ {ts rest : List Located}
      (fuel : Nat), ts.length < fuel → Spells ts w rest →
        arguments nested fuel ts = .ok (es, rest) := by
  induction hwrites with
  | last he =>
    intro ts rest fuel hfuel hw
    obtain ⟨mid, hfront, hclose, -, hback⟩ := spells_append.1 hw
    cases hback
    obtain ⟨fuel, rfl⟩ := Nat.exists_eq_add_one.2 (show 0 < fuel by omega)
    have hcomma : current mid ≠ .comma := by simp [hclose]
    rw [arguments, hnested he hfront (by simp [hclose, Token.grip]), ok_bind]
    dsimp only
    rw [if_neg hcomma, expectToken_eq_ok hclose, ok_bind]
  | more he _ ih =>
    intro ts rest fuel hfuel hw
    obtain ⟨mid, hfront, hcomma, hne, hback⟩ := spells_append.1 hw
    obtain ⟨fuel, rfl⟩ := Nat.exists_eq_add_one.2 (show 0 < fuel by omega)
    have hshorter := lt_length_of_current (hcomma ▸ hne)
    have hlength := hfront.length_eq
    rw [arguments, hnested he hfront (by simp [hcomma, Token.grip]), ok_bind]
    dsimp only
    rw [if_pos hcomma, ih fuel (by omega) hback, ok_bind]

theorem complete_argumentList (hnested : nested.Complete phrase 1)
    (hstarts : phrase.Starts (· ≠ .rightParen)) {bound : Nat} :
    Parse.Complete (argumentList nested) (WritesArgumentList phrase) bound := by
  intro w es hwrites ts rest hw hgrip
  cases hwrites with
  | none =>
    obtain ⟨hopen, -, hclose, -, hback⟩ := hw
    cases hback
    rw [argumentList, expectToken_eq_ok hopen, ok_bind, if_pos hclose]
  | some hargs =>
    obtain ⟨hopen, -, hw⟩ := hw
    have hclose : current ts.tail ≠ .rightParen := by
      cases hargs with
      | last he =>
        obtain ⟨mid, hfront, -⟩ := spells_append.1 hw
        exact hstarts.current he hfront
      | more he _ =>
        obtain ⟨mid, hfront, -⟩ := spells_append.1 hw
        exact hstarts.current he hfront
    rw [argumentList, expectToken_eq_ok hopen, ok_bind, if_neg hclose]
    exact complete_arguments hnested hargs _ (Nat.lt_succ_self _) hw

/-! ### Steps are taken -/

/-- A test is a name, or the name of a kind of node with parentheses behind it. -/
theorem WritesTest.name_or_kind {w : List Token} {test : NodeTest}
    (h : WritesTest context w test) :
    (∃ label localPart, w = [.name label localPart] ∧
      nameTest context label localPart = .ok test) ∨
    ∃ name v, isNodeType name = true ∧ w = .name none name :: .leftParen :: v ++ [.rightParen] ∧
      ∀ ts mid, Spells ts v mid → current mid = .rightParen →
        kindTest name ts = .ok (test, mid) := by
  cases h with
  | anyName => exact .inl ⟨_, _, rfl, rfl⟩
  | name hstar => exact .inl ⟨_, _, rfl, by rw [nameTest, if_neg hstar]⟩
  | anyNameIn huri =>
    refine .inl ⟨_, _, rfl, ?_⟩
    rw [nameTest, Context.resolve_eq_ok_iff.2 huri, Except.map, if_pos rfl]
  | nameIn huri hstar =>
    refine .inl ⟨_, _, rfl, ?_⟩
    rw [nameTest, Context.resolve_eq_ok_iff.2 huri, Except.map, if_neg hstar]
  | anyNode =>
    refine .inr ⟨"node", [], by decide, rfl, fun ts mid hv _ => ?_⟩
    cases hv
    rfl
  | text =>
    refine .inr ⟨"text", [], by decide, rfl, fun ts mid hv _ => ?_⟩
    cases hv
    rfl
  | comment =>
    refine .inr ⟨"comment", [], by decide, rfl, fun ts mid hv _ => ?_⟩
    cases hv
    rfl
  | instruction =>
    refine .inr ⟨"processing-instruction", [], by decide, rfl, fun ts mid hv hclose => ?_⟩
    cases hv
    simp [kindTest, hclose]
  | instructionTo target =>
    refine .inr ⟨"processing-instruction", [.literal target], by decide, rfl,
      fun ts mid hv _ => ?_⟩
    obtain ⟨htarget, -, rfl⟩ := hv
    simp [kindTest, htarget]

/-- A test starts with a name, behind which neither an axis nor a call goes on. -/
theorem WritesTest.current_eq {w : List Token} {test : NodeTest} (h : WritesTest context w test)
    {ts rest : List Located} (hw : Spells ts w rest) (hgrip : (current rest).grip < 10) :
    ∃ label localPart, current ts = .name label localPart ∧ second ts ≠ .colonColon ∧
      (second ts = .leftParen → label = none ∧ isNodeType localPart = true) := by
  rcases h.name_or_kind with ⟨label, localPart, rfl, -⟩ | ⟨name, v, htype, rfl, -⟩
  · obtain ⟨hname, -, rfl⟩ := hw
    refine ⟨label, localPart, hname, fun h => ?_, fun h => ?_⟩
    all_goals
      rw [second] at h
      simp [h, Token.grip] at hgrip
  · obtain ⟨hname, -, hopen, -⟩ := hw
    refine ⟨none, name, hname, ?_, fun _ => ⟨rfl, htype⟩⟩
    rw [second, hopen]
    simp

theorem complete_nodeTest : Parse.Complete (nodeTest context) (WritesTest context) 10 := by
  intro w test hwrites ts rest hw hgrip
  rcases hwrites.name_or_kind with ⟨label, localPart, rfl, htest⟩ | ⟨name, v, htype, rfl, hkind⟩
  · obtain ⟨hname, -, rfl⟩ := hw
    have hopen : second ts ≠ .leftParen := by
      intro h
      rw [second] at h
      simp [h, Token.grip] at hgrip
    simp [nodeTest, hname, hopen, htest, Except.map]
  · obtain ⟨mid, ⟨hname, -, hopen, -, hv⟩, hclose, -, hrest⟩ := spells_append.1 hw
    cases hrest
    have hsecond : second ts = .leftParen := hopen
    simp [nodeTest, hname, htype, hsecond, hkind _ _ hv hclose, expectToken_eq_ok hclose, ok_bind]

theorem axisOf_eq_child {ts : List Located} (hsign : current ts ≠ .atSign)
    (hcolons : second ts ≠ .colonColon) : axisOf ts = .ok (.child, ts) := by
  unfold axisOf
  split
  · contradiction
  · contradiction
  · rfl

/-- An axis is taken if a test stands behind it. -/
theorem axisOf_eq_ok {u v : List Token} {axis : Axis} {test : NodeTest}
    (haxis : WritesAxis u axis) (htest : WritesTest context v test) {ts mid rest : List Located}
    (hu : Spells ts u mid) (hv : Spells mid v rest) (hgrip : (current rest).grip < 10) :
    axisOf ts = .ok (axis, mid) := by
  cases haxis with
  | child =>
    cases hu
    obtain ⟨label, localPart, hname, hcolons, -⟩ := htest.current_eq hv hgrip
    exact axisOf_eq_child (by simp [hname]) hcolons
  | attr =>
    obtain ⟨hsign, -, rfl⟩ := hu
    simp [axisOf, hsign]
  | named =>
    obtain ⟨hname, -, hcolons, -, rfl⟩ := hu
    have hsecond : second ts = .colonColon := hcolons
    simp [axisOf, hname, hsecond, Axis.ofLabel?_label]

/-- A step starts as steps do, and not as a primary expression does. -/
theorem WritesStep.starts {w : List Token} {s : Step} (h : WritesStep context phrase w s)
    {ts rest : List Located} (hw : Spells ts w rest) (hgrip : (current rest).grip < 9) :
    startsStep ts = true ∧ startsPrimary ts = false := by
  cases h with
  | self => simp [startsStep, startsPrimary, hw.1]
  | parent => simp [startsStep, startsPrimary, hw.1]
  | full haxis htest hpredicates =>
    obtain ⟨mid, hu, hvw⟩ := spells_append.1 hw
    obtain ⟨behind, hv, hw⟩ := spells_append.1 hvw
    have hbehind := hpredicates.grip_lt hw hgrip
    cases haxis with
    | child =>
      cases hu
      obtain ⟨label, localPart, hname, -, hkind⟩ := htest.current_eq hv hbehind
      refine ⟨by simp [startsStep, hname], ?_⟩
      by_cases hopen : second ts = .leftParen
      · obtain ⟨rfl, htype⟩ := hkind hopen
        simp [startsPrimary, hname, htype]
      · simp [startsPrimary, hname, hopen]
    | attr => simp [startsStep, startsPrimary, hu.1]
    | named axis =>
      obtain ⟨hname, -, hcolons, -⟩ := hu
      have hsecond : second ts = .colonColon := hcolons
      simp [startsStep, startsPrimary, hname, hsecond]

theorem complete_step (hnested : nested.Complete phrase 1) :
    Parse.Complete (step context nested) (WritesStep context phrase) 9 := by
  intro w s hwrites ts rest hw hgrip
  cases hwrites with
  | self =>
    obtain ⟨hdot, -, rfl⟩ := hw
    simp [step, hdot]
  | parent =>
    obtain ⟨hdots, -, rfl⟩ := hw
    simp [step, hdots]
  | full haxis htest hpredicates =>
    obtain ⟨mid, hu, hvw⟩ := spells_append.1 hw
    obtain ⟨behind, hv, hw⟩ := spells_append.1 hvw
    have hbehind := hpredicates.grip_lt hw hgrip
    have hfirst : current ts ≠ .dot ∧ current ts ≠ .dotDot := by
      cases haxis with
      | child =>
        cases hu
        obtain ⟨label, localPart, hname, -⟩ := htest.current_eq hv hbehind
        simp [hname]
      | attr => simp [hu.1]
      | named => simp [hu.1]
    unfold step
    split
    · exact absurd ‹_› hfirst.1
    · exact absurd ‹_› hfirst.2
    · rw [axisOf_eq_ok haxis htest hu hv hbehind, ok_bind]
      dsimp only
      rw [complete_nodeTest htest hv hbehind, ok_bind]
      dsimp only
      rw [complete_predicates hnested hpredicates hw hgrip, ok_bind]

theorem Leads.grip_eq {t : Token} {between : List Step} (h : Leads t between) : t.grip = 8 := by
  cases h <;> rfl

theorem Leads.grip_lt {t : Token} {between : List Step} (h : Leads t between) : t.grip < 9 :=
  h.grip_eq ▸ Nat.lt_succ_self 8

/-- The first step of a path is taken, and behind it all the others. -/
theorem complete_moreSteps {oneStep : Parse Step}
    (hstep : oneStep.Complete (WritesStep context phrase) 9) {w : List Token} {steps : List Step}
    (hwrites : WritesSteps context phrase w steps) : ∀ {ts rest : List Located},
      Spells ts w rest → (current rest).grip < 8 → ∃ s more mid, steps = s :: more ∧
        oneStep ts = .ok (s, mid) ∧ mid.length ≤ ts.length ∧
        ∀ fuel, mid.length ≤ fuel → moreSteps oneStep fuel mid = .ok (more, rest) := by
  -- The rules put a step in front of others, as the parser does behind a slash: the further steps
  -- of the whole path are the first step behind the slash with its own further steps.
  induction hwrites with
  | one hs =>
    intro ts rest hw hgrip
    have hlength := hw.length_eq
    have hends : ∀ between, ¬ Leads (current rest) between := fun _ h => by
      rw [h.grip_eq] at hgrip
      exact Nat.lt_irrefl _ hgrip
    exact ⟨_, [], rest, rfl, hstep hs hw (Nat.lt_succ_of_lt hgrip), by omega,
      fun fuel _ => moreSteps_of_not_leads hends fuel⟩
  | more hs hleads _ ih =>
    intro ts rest hw hgrip
    obtain ⟨mid, hfront, rfl, hne, hback⟩ := spells_append.1 hw
    obtain ⟨t, more, behind, rfl, ht, hbehind, hmore⟩ := ih hback hgrip
    have hlength := hfront.length_eq
    have hshorter := lt_length_of_current hne
    have hfirst := hstep hs hfront hleads.grip_lt
    refine ⟨_, _, mid, rfl, hfirst, by omega, fun fuel hfuel => ?_⟩
    obtain ⟨fuel, rfl⟩ := Nat.exists_eq_add_one.2 (show 0 < fuel by omega)
    rw [moreSteps_of_leads hleads, ht, ok_bind]
    dsimp only
    rw [hmore fuel (by omega), ok_bind]

theorem complete_relativePath {oneStep : Parse Step}
    (hstep : oneStep.Complete (WritesStep context phrase) 9) :
    Parse.Complete (relativePath oneStep) (WritesSteps context phrase) 8 := by
  intro w steps hwrites ts rest hw hgrip
  obtain ⟨s, more, mid, rfl, hs, -, hmore⟩ := complete_moreSteps hstep hwrites hw hgrip
  rw [relativePath, hs, ok_bind]
  dsimp only
  rw [hmore _ (Nat.le_refl _), ok_bind]

/-! ### Primary expressions and paths are taken -/

theorem WritesArgumentList.current_eq {w : List Token} {args : List Expr}
    (h : WritesArgumentList phrase w args) {ts rest : List Located} (hw : Spells ts w rest) :
    current ts = .leftParen := by
  cases h with
  | none => exact hw.1
  | some => exact hw.1

theorem WritesPrimary.starts {w : List Token} {e : Expr} (h : WritesPrimary context phrase w e)
    {ts rest : List Located} (hw : Spells ts w rest) : startsPrimary ts = true := by
  cases h with
  | varRef => simp [startsPrimary, hw.1]
  | literal => simp [startsPrimary, hw.1]
  | number => simp [startsPrimary, hw.1]
  | parens => simp [startsPrimary, hw.1]
  | call hargs hcallable =>
    obtain ⟨hname, -, hw⟩ := hw
    obtain ⟨hstar, htype⟩ := hcallable.name_ne
    have hopen : second ts = .leftParen := hargs.current_eq hw
    simp [startsPrimary, hname, hstar, htype, hopen]

theorem WritesFilter.starts {w : List Token} {e : Expr} (h : WritesFilter context phrase w e)
    {ts rest : List Located} (hw : Spells ts w rest) : startsPrimary ts = true := by
  cases h with
  | bare hprimary => exact hprimary.starts hw
  | filter hprimary =>
    obtain ⟨mid, hw, -⟩ := spells_append.1 hw
    exact hprimary.starts hw

theorem WritesSteps.starts {w : List Token} {steps : List Step}
    (h : WritesSteps context phrase w steps) {ts rest : List Located} (hw : Spells ts w rest)
    (hgrip : (current rest).grip < 8) : startsStep ts = true ∧ startsPrimary ts = false := by
  cases h with
  | one hs => exact hs.starts hw (Nat.lt_succ_of_lt hgrip)
  | more hs hleads =>
    obtain ⟨mid, hfront, rfl, -⟩ := spells_append.1 hw
    exact hs.starts hfront hleads.grip_lt

theorem complete_primary (hnested : nested.Complete phrase 1)
    (hstarts : phrase.Starts (· ≠ .rightParen)) {bound : Nat} :
    Parse.Complete (primary context nested) (WritesPrimary context phrase) bound := by
  intro w e hwrites ts rest hw hgrip
  cases hwrites with
  | varRef =>
    obtain ⟨hname, -, rfl⟩ := hw
    simp [primary, hname]
  | literal =>
    obtain ⟨hbody, -, rfl⟩ := hw
    simp [primary, hbody]
  | number =>
    obtain ⟨hdigits, -, rfl⟩ := hw
    simp [primary, hdigits]
  | parens he =>
    obtain ⟨mid, ⟨hopen, -, hfront⟩, hclose, -, hback⟩ := spells_append.1 hw
    cases hback
    have hinner := hnested he hfront (by simp [hclose, Token.grip])
    simp [primary, hopen, hinner, expectToken_eq_ok hclose, ok_bind]
  | call hargs hcallable =>
    obtain ⟨hname, -, hw⟩ := hw
    have hlist := complete_argumentList hnested hstarts hargs hw hgrip
    simp [primary, hname, hlist, checkCall_eq_ok_iff.2 hcallable, ok_bind]

theorem complete_filterExpr (hnested : nested.Complete phrase 1)
    (hstarts : phrase.Starts (· ≠ .rightParen)) :
    Parse.Complete (filterExpr context nested) (WritesFilter context phrase) 9 := by
  intro w e hwrites ts rest hw hgrip
  cases hwrites with
  | bare hprimary =>
    have hfirst := complete_primary hnested hstarts hprimary hw hgrip
    have hnone : predicates nested rest = .ok ([], rest) :=
      complete_predicates hnested .none rfl hgrip
    simp [filterExpr, hfirst, hnone, ok_bind]
  | filter hprimary hpredicates hsome =>
    obtain ⟨mid, hfront, hback⟩ := spells_append.1 hw
    have hfirst := complete_primary hnested hstarts hprimary hfront
      (Nat.lt_succ_self (current mid).grip)
    have hmore := complete_predicates hnested hpredicates hback hgrip
    simp [filterExpr, hfirst, hmore, ok_bind, hsome]

/-- Neither a step nor a primary expression starts with a slash. -/
theorem not_leads_of_starts {ts : List Located}
    (h : startsStep ts = true ∨ startsPrimary ts = true) :
    current ts ≠ .slash ∧ current ts ≠ .doubleSlash := by
  constructor
  all_goals
    intro hslash
    simp [startsStep, startsPrimary, hslash] at h

/-- Where no slash stands, there is a primary expression or a step. -/
theorem path_of_starts {ts : List Located}
    (h : startsStep ts = true ∨ startsPrimary ts = true) :
    path context nested ts =
      (if startsPrimary ts then do
        let (e, ts) ← filterExpr context nested ts
        match current ts with
        | .slash => do
          let (steps, ts) ← relativePath (step context nested) ts.tail
          .ok (.path (.nodes e) steps, ts)
        | .doubleSlash => do
          let (steps, ts) ← relativePath (step context nested) ts.tail
          .ok (.path (.nodes e) (Step.anywhere :: steps), ts)
        | _ => .ok (e, ts)
      else do
        let (steps, ts) ← relativePath (step context nested) ts
        .ok (.path .context steps, ts)) := by
  obtain ⟨hslash, hdouble⟩ := not_leads_of_starts h
  unfold path
  dsimp only
  split
  · contradiction
  · contradiction
  · rfl

theorem complete_path (hnested : nested.Complete phrase 1)
    (hstarts : phrase.Starts (· ≠ .rightParen)) :
    Parse.Complete (path context nested) (WritesPath context phrase) 8 := by
  have hrelative : Parse.Complete (relativePath (step context nested))
      (WritesSteps context phrase) 8 := complete_relativePath (complete_step hnested)
  intro w e hwrites ts rest hw hgrip
  cases hwrites with
  | root =>
    obtain ⟨hslash, -, rfl⟩ := hw
    -- What starts a step would hold on to the slash, and then the slash alone is no path.
    have hstep : startsStep ts.tail = false := by
      unfold startsStep
      split
      all_goals simp_all [Token.grip]
    simp [path, hslash, hstep]
  | fromRoot hleads hsteps =>
    obtain ⟨hcurrent, -, hw⟩ := hw
    have hstep := (hsteps.starts hw hgrip).1
    cases hleads with
    | slash => simp [path, hcurrent, hstep, hrelative hsteps hw hgrip, ok_bind]
    | doubleSlash => simp [path, hcurrent, hrelative hsteps hw hgrip, ok_bind]
  | bare hfilter =>
    have hprimary := hfilter.starts hw
    have hfirst := complete_filterExpr hnested hstarts hfilter hw (Nat.lt_succ_of_lt hgrip)
    rw [path_of_starts (.inr hprimary), if_pos hprimary, hfirst, ok_bind]
    dsimp only
    split
    · next h => simp [h, Token.grip] at hgrip
    · next h => simp [h, Token.grip] at hgrip
    · rfl
  | fromNodes hfilter hleads hsteps =>
    obtain ⟨mid, hfront, hcurrent, -, hback⟩ := spells_append.1 hw
    have hprimary := hfilter.starts hfront
    have hfirst := complete_filterExpr hnested hstarts hfilter hfront
      (hcurrent ▸ hleads.grip_lt)
    rw [path_of_starts (.inr hprimary), if_pos hprimary, hfirst, ok_bind]
    cases hleads with
    | slash => simp [hcurrent, hrelative hsteps hback hgrip, ok_bind]
    | doubleSlash => simp [hcurrent, hrelative hsteps hback hgrip, ok_bind]
  | relative hsteps =>
    obtain ⟨hstep, hprimary⟩ := hsteps.starts hw hgrip
    rw [path_of_starts (.inl hstep), if_neg (by simp [hprimary]), hrelative hsteps hw hgrip,
      ok_bind]

/-! ### Expressions are taken -/

/-- Tokens that neither change a sign nor close a list of arguments. -/
def Token.OpensPath (t : Token) : Prop :=
  t ≠ .minus ∧ t ≠ .rightParen

theorem starts_step : Phrase.Starts (WritesStep context phrase) Token.OpensPath := by
  intro w s h
  cases h with
  | self => exact ⟨_, _, rfl, by simp [Token.OpensPath]⟩
  | parent => exact ⟨_, _, rfl, by simp [Token.OpensPath]⟩
  | full haxis htest =>
    cases haxis with
    | child =>
      rcases htest.name_or_kind with ⟨label, localPart, rfl, -⟩ | ⟨name, v, -, rfl, -⟩
      · exact ⟨_, _, rfl, by simp [Token.OpensPath]⟩
      · exact ⟨_, _, rfl, by simp [Token.OpensPath]⟩
    | attr => exact ⟨_, _, rfl, by simp [Token.OpensPath]⟩
    | named => exact ⟨_, _, rfl, by simp [Token.OpensPath]⟩

theorem starts_steps : Phrase.Starts (WritesSteps context phrase) Token.OpensPath := by
  intro w steps h
  cases h with
  | one hs => exact starts_step hs
  | more hs =>
    obtain ⟨t, v, rfl, ht⟩ := starts_step hs
    exact ⟨t, _, rfl, ht⟩

theorem starts_primary : Phrase.Starts (WritesPrimary context phrase) Token.OpensPath := by
  intro w e h
  cases h
  all_goals exact ⟨_, _, rfl, by simp [Token.OpensPath]⟩

theorem starts_filter : Phrase.Starts (WritesFilter context phrase) Token.OpensPath := by
  intro w e h
  cases h with
  | bare hprimary => exact starts_primary hprimary
  | filter hprimary =>
    obtain ⟨t, v, rfl, ht⟩ := starts_primary hprimary
    exact ⟨t, _, rfl, ht⟩

theorem starts_path : Phrase.Starts (WritesPath context phrase) Token.OpensPath := by
  intro w e h
  cases h with
  | root => exact ⟨_, _, rfl, by simp [Token.OpensPath]⟩
  | fromRoot hleads =>
    refine ⟨_, _, rfl, ?_⟩
    cases hleads <;> simp [Token.OpensPath]
  | bare hfilter => exact starts_filter hfilter
  | fromNodes hfilter =>
    obtain ⟨t, v, rfl, ht⟩ := starts_filter hfilter
    exact ⟨t, _, rfl, ht⟩
  | relative hsteps => exact starts_steps hsteps

theorem Phrase.Starts.imp {phrase : Phrase α} {kind kind' : Token → Prop} (h : phrase.Starts kind)
    (himp : ∀ t, kind t → kind' t) : phrase.Starts kind' := by
  intro w a hwrites
  obtain ⟨t, v, rfl, ht⟩ := h hwrites
  exact ⟨t, v, rfl, himp t ht⟩

theorem Phrase.Starts.signed {kind : Token → Prop} (h : phrase.Starts kind) (hminus : kind .minus) :
    Phrase.Starts (WritesSigned phrase) kind := by
  intro w e hwrites
  cases hwrites with
  | plain hplain => exact h hplain
  | minus => exact ⟨_, _, rfl, hminus⟩

theorem starts_writesExpr : Phrase.Starts (WritesExpr context phrase) (· ≠ .rightParen) := by
  have hpath : Phrase.Starts (WritesPath context phrase) (· ≠ .rightParen) :=
    starts_path.imp fun _ ht => ht.2
  exact (hpath.joined.signed (by simp)).joined.joined.joined.joined.joined.joined

theorem starts_writes : ∀ depth : Nat, Phrase.Starts (Writes context depth) (· ≠ .rightParen)
  | 0 => fun _ _ h => h.elim
  | _ + 1 => starts_writesExpr

theorem complete_orExpr (hnested : nested.Complete phrase 1)
    (hstarts : phrase.Starts (· ≠ .rightParen)) :
    Parse.Complete (orExpr context nested) (WritesExpr context phrase) 1 := by
  have hpath : Parse.Complete (path context nested) (WritesPath context phrase) 8 :=
    complete_path hnested hstarts
  have hsigned := complete_unary (complete_level .union hpath)
    (starts_path.imp fun _ ht => ht.1).joined
  have hsum := complete_level .sum (complete_level .product hsigned)
  have hequality := complete_level .equality (complete_level .order hsum)
  exact complete_level .disjunction (complete_level .conjunction hequality)

/-- The parser takes every expression that is written within its levels of nesting. -/
theorem complete_parseExpr : ∀ depth : Nat,
    Parse.Complete (parseExpr context depth) (Writes context depth) 1
  | 0 => fun _ _ h => h.elim
  | depth + 1 => complete_orExpr (complete_parseExpr depth) (starts_writes depth)

end MarkupRules.Query
