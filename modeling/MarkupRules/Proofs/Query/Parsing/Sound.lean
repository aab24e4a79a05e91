/-
# What the parser takes is written

Every parser takes tokens off the front of a list, and the tokens it takes write what it gives. A
level of operators, and everything that holds nested expressions, keeps this from the parsers it is
made of, and the parser of expressions has it by induction on the levels of nesting.

Key definitions: `Spells`, `Parse.Sound`, `Tier.operator?`.
Key theorems: `sound_level`, `sound_step`, `sound_path`, `sound_parseExpr`.
-/
import MarkupRules.Proofs.Query.Grammar
import MarkupRules.Proofs.Steps

namespace MarkupRules.Query

/-! ### Tokens at the front of a list -/

/-- Tokens stand at the front of a list, none of them the end of the text, and others follow. -/
def Spells : List Located → List Token → List Located → Prop
  | ts, [], rest => ts = rest
  | ts, t :: w, rest => current ts = t ∧ t ≠ .eof ∧ Spells ts.tail w rest

theorem spells_append {v : List Token} {rest : List Located} : ∀ {u : List Token}
    {ts : List Located}, Spells ts (u ++ v) rest ↔ ∃ mid, Spells ts u mid ∧ Spells mid v rest
  | [], ts => by simp [Spells]
  | t :: u, ts => by simp [Spells, spells_append, and_assoc]

theorem Spells.append {ts mid rest : List Located} {u v : List Token} (hu : Spells ts u mid)
    (hv : Spells mid v rest) : Spells ts (u ++ v) rest :=
  spells_append.2 ⟨mid, hu, hv⟩

theorem Spells.length_eq : ∀ {w : List Token} {ts rest : List Located}, Spells ts w rest →
    ts.length = w.length + rest.length
  | [], _, _, h => by
    cases h
    simp
  | t :: w, [], _, h => absurd h.1.symm h.2.1
  | t :: w, _ :: ts, rest, h => by
    have hts : ts.length = w.length + rest.length := h.2.2.length_eq
    simp only [List.length_cons, hts]
    omega

theorem expectToken_eq_ok_iff {t : Token} {ts rest : List Located} :
    expectToken t ts = .ok rest ↔ current ts = t ∧ ts.tail = rest := by
  unfold expectToken complain
  split <;> simp [*]

variable {α : Type} {context : Context} {nested : Parse Expr} {phrase : Phrase Expr}

/-- What a parser takes off the front of a list writes what it gives. -/
def Parse.Sound (p : Parse α) (phrase : Phrase α) : Prop :=
  ∀ ⦃ts a rest⦄, p ts = .ok (a, rest) → ∃ w, Spells ts w rest ∧ phrase w a

/-! ### Operators -/

/-- The operators of a level as the parser looks them up. -/
def Tier.operator? : Tier → Token → Option (Expr → Expr → Expr)
  | .disjunction => orOperator?
  | .conjunction => andOperator?
  | .equality => equalityOperator?
  | .order => relationalOperator?
  | .sum => additiveOperator?
  | .product => multiplicativeOperator?
  | .union => unionOperator?

theorem Tier.operator?_eq_some_iff {tier : Tier} {t : Token} {combine : Expr → Expr → Expr} :
    tier.operator? t = some combine ↔ Joins tier t combine := by
  constructor
  · intro h
    cases tier <;> cases t <;> cases h <;> constructor
  · intro h
    cases h <;> rfl

theorem Joins.ne_eof {tier : Tier} {t : Token} {combine : Expr → Expr → Expr}
    (h : Joins tier t combine) : t ≠ .eof := by
  cases h <;> simp

theorem sound_chain {tier : Tier} {operand : Parse Expr} (hoperand : operand.Sound phrase) :
    ∀ (fuel : Nat) {w left ts e rest}, WritesJoined tier phrase w left →
      chain tier.operator? operand fuel left ts = .ok (e, rest) →
        ∃ v, Spells ts v rest ∧ WritesJoined tier phrase (w ++ v) e
  | 0, w, left, ts, e, rest, hleft, h => by
    cases h
    exact ⟨[], rfl, by simpa using hleft⟩
  | fuel + 1, w, left, ts, e, rest, hleft, h => by
    unfold chain at h
    split at h
    · cases h
      exact ⟨[], rfl, by simpa using hleft⟩
    · next combine hop =>
      obtain ⟨⟨right, mid⟩, hright, h⟩ := bind_eq_ok_iff.1 h
      obtain ⟨u, hu, hwrites⟩ := hoperand hright
      have hjoins := Tier.operator?_eq_some_iff.1 hop
      obtain ⟨v, hv, he⟩ := sound_chain hoperand fuel (.more hleft hjoins hwrites) h
      have hfront : Spells ts (current ts :: u) mid := ⟨rfl, hjoins.ne_eof, hu⟩
      exact ⟨_, hfront.append hv, by simpa using he⟩

theorem sound_level (tier : Tier) {operand : Parse Expr} (hoperand : operand.Sound phrase) :
    Parse.Sound (level tier.operator? operand) (WritesJoined tier phrase) := by
  intro ts e rest h
  unfold level at h
  obtain ⟨⟨left, mid⟩, hleft, h⟩ := bind_eq_ok_iff.1 h
  obtain ⟨w, hw, hwrites⟩ := hoperand hleft
  dsimp only at h
  split at h
  · cases h
    exact ⟨w, hw, .one hwrites⟩
  · obtain ⟨v, hv, he⟩ := sound_chain hoperand _ (.one hwrites) h
    exact ⟨_, hw.append hv, he⟩

theorem sound_unary {operand : Parse Expr} (hoperand : operand.Sound phrase) :
    ∀ ⦃ts : List Located⦄ ⦃e rest⦄, unary operand ts = .ok (e, rest) →
      ∃ w, Spells ts w rest ∧ WritesSigned phrase w e
  | [], e, rest, h => by
    obtain ⟨w, hw, hwrites⟩ := hoperand h
    exact ⟨w, hw, .plain hwrites⟩
  | t :: ts, e, rest, h => by
    unfold unary at h
    split at h
    · next ht =>
      obtain ⟨⟨inner, mid⟩, hinner, h⟩ := bind_eq_ok_iff.1 h
      cases h
      obtain ⟨w, hw, hwrites⟩ := sound_unary hoperand hinner
      exact ⟨.minus :: w, ⟨ht, by simp, hw⟩, .minus hwrites⟩
    · obtain ⟨w, hw, hwrites⟩ := hoperand h
      exact ⟨w, hw, .plain hwrites⟩

/-! ### Predicates and arguments -/

theorem sound_predicatesUpTo (hnested : nested.Sound phrase) : ∀ (fuel : Nat),
    Parse.Sound (predicatesUpTo nested fuel) (WritesPredicates phrase)
  | 0, ts, es, rest, h => by
    cases h
    exact ⟨[], rfl, .none⟩
  | fuel + 1, ts, es, rest, h => by
    unfold predicatesUpTo at h
    split at h
    · next hopen =>
      obtain ⟨⟨e, mid⟩, he, h⟩ := bind_eq_ok_iff.1 h
      obtain ⟨behind, hclose, h⟩ := bind_eq_ok_iff.1 h
      obtain ⟨⟨more, last⟩, hmore, h⟩ := bind_eq_ok_iff.1 h
      cases h
      obtain ⟨hcurrent, rfl⟩ := expectToken_eq_ok_iff.1 hclose
      obtain ⟨w, hw, hwrites⟩ := hnested he
      obtain ⟨v, hv, hmany⟩ := sound_predicatesUpTo hnested fuel hmore
      have hfront : Spells ts (.leftBracket :: w) mid := ⟨hopen, by simp, hw⟩
      have hback : Spells mid (.rightBracket :: v) _ := ⟨hcurrent, by simp, hv⟩
      exact ⟨_, hfront.append hback, .more hwrites hmany⟩
    · cases h
      exact ⟨[], rfl, .none⟩

theorem sound_predicates (hnested : nested.Sound phrase) :
    Parse.Sound (predicates nested) (WritesPredicates phrase) := by
  intro ts es rest h
  unfold predicates at h
  split at h
  · exact sound_predicatesUpTo hnested _ h
  · cases h
    exact ⟨[], rfl, .none⟩

theorem sound_arguments (hnested : nested.Sound phrase) : ∀ (fuel : Nat),
    Parse.Sound (arguments nested fuel) (WritesArguments phrase)
  | 0, ts, es, rest, h => by cases h
  | fuel + 1, ts, es, rest, h => by
    unfold arguments at h
    obtain ⟨⟨e, mid⟩, he, h⟩ := bind_eq_ok_iff.1 h
    obtain ⟨w, hw, hwrites⟩ := hnested he
    dsimp only at h
    split at h
    · next hcomma =>
      obtain ⟨⟨more, last⟩, hmore, h⟩ := bind_eq_ok_iff.1 h
      cases h
      obtain ⟨v, hv, hmany⟩ := sound_arguments hnested fuel hmore
      have hback : Spells mid (.comma :: v) _ := ⟨hcomma, by simp, hv⟩
      exact ⟨_, hw.append hback, .more hwrites hmany⟩
    · obtain ⟨behind, hclose, h⟩ := bind_eq_ok_iff.1 h
      cases h
      obtain ⟨hcurrent, rfl⟩ := expectToken_eq_ok_iff.1 hclose
      have hback : Spells mid [.rightParen] mid.tail := ⟨hcurrent, by simp, rfl⟩
      exact ⟨_, hw.append hback, .last hwrites⟩

theorem sound_argumentList (hnested : nested.Sound phrase) :
    Parse.Sound (argumentList nested) (WritesArgumentList phrase) := by
  intro ts es rest h
  unfold argumentList at h
  obtain ⟨inside, hopen, h⟩ := bind_eq_ok_iff.1 h
  obtain ⟨hcurrent, rfl⟩ := expectToken_eq_ok_iff.1 hopen
  split at h
  · next hclose =>
    cases h
    exact ⟨[.leftParen, .rightParen], ⟨hcurrent, by simp, hclose, by simp, rfl⟩, .none⟩
  · obtain ⟨w, hw, hwrites⟩ := sound_arguments hnested _ h
    exact ⟨.leftParen :: w, ⟨hcurrent, by simp, hw⟩, .some hwrites⟩

/-! ### Steps -/

theorem Axis.label_of_ofLabel? {name : String} {axis : Axis} (h : ofLabel? name = some axis) :
    axis.label = name := by
  simpa using List.find?_some h

theorem Context.resolve_eq_ok_iff {label uri : String} :
    context.resolve label = .ok uri ↔ context.bindings.get? label = some uri := by
  unfold resolve
  split <;> simp [*]

theorem sound_axisOf : Parse.Sound axisOf WritesAxis := by
  intro ts axis rest h
  unfold axisOf at h
  split at h
  · next hsign =>
    cases h
    exact ⟨[.atSign], ⟨hsign, by simp, rfl⟩, .attr⟩
  · next label hname hcolons =>
    split at h
    · next axis hlabel =>
      cases h
      obtain rfl := Axis.label_of_ofLabel? hlabel
      exact ⟨[.name none axis.label, .colonColon], ⟨hname, by simp, hcolons, by simp, rfl⟩,
        .named axis⟩
    · cases h
  · cases h
    exact ⟨[], rfl, .child⟩

theorem sound_kindTest {name : String} (hname : isNodeType name = true) {ts rest : List Located}
    {test : NodeTest} (h : kindTest name ts = .ok (test, rest)) :
    ∃ w, Spells ts w rest ∧
      WritesTest context (.name none name :: .leftParen :: w ++ [.rightParen]) test := by
  unfold kindTest at h
  split_ifs at h with hnode htext hcomment
  · cases h
    exact ⟨[], rfl, hnode ▸ .anyNode⟩
  · cases h
    exact ⟨[], rfl, htext ▸ .text⟩
  · cases h
    exact ⟨[], rfl, hcomment ▸ .comment⟩
  · obtain rfl : name = "processing-instruction" := by
      simpa [isNodeType, hnode, htext, hcomment] using hname
    split at h
    · next target htarget =>
      cases h
      exact ⟨[.literal target], ⟨htarget, by simp, rfl⟩, .instructionTo target⟩
    · cases h
      exact ⟨[], rfl, .instruction⟩

theorem sound_nameTest {label : Option String} {localPart : String} {test : NodeTest}
    (h : nameTest context label localPart = .ok test) :
    WritesTest context [.name label localPart] test := by
  unfold nameTest at h
  cases label with
  | none =>
    dsimp only at h
    split_ifs at h with hstar
    · cases h
      exact hstar ▸ .anyName
    · cases h
      exact .name hstar
  | some label =>
    obtain ⟨uri, huri, rfl⟩ := map_eq_ok_iff.1 h
    rw [Context.resolve_eq_ok_iff] at huri
    split_ifs with hstar
    · exact hstar ▸ .anyNameIn huri
    · exact .nameIn huri hstar

theorem sound_nodeTest : Parse.Sound (nodeTest context) (WritesTest context) := by
  intro ts test rest h
  unfold nodeTest at h
  split at h
  · next label localPart hname =>
    split at h
    · next hkind =>
      simp only [Bool.and_eq_true, Option.isNone_iff_eq_none, decide_eq_true_eq] at hkind
      obtain ⟨⟨rfl, htype⟩, hopen⟩ := hkind
      obtain ⟨⟨found, mid⟩, hfound, h⟩ := bind_eq_ok_iff.1 h
      obtain ⟨behind, hclose, h⟩ := bind_eq_ok_iff.1 h
      cases h
      obtain ⟨hcurrent, rfl⟩ := expectToken_eq_ok_iff.1 hclose
      obtain ⟨w, hw, hwrites⟩ := sound_kindTest htype hfound
      have hfront : Spells ts (.name none localPart :: .leftParen :: w) mid :=
        ⟨hname, by simp, hopen, by simp, hw⟩
      have hback : Spells mid [.rightParen] mid.tail := ⟨hcurrent, by simp, rfl⟩
      exact ⟨_, hfront.append hback, hwrites⟩
    · obtain ⟨found, hfound, h⟩ := map_eq_ok_iff.1 h
      cases h
      exact ⟨[.name label localPart], ⟨hname, by simp, rfl⟩, sound_nameTest hfound⟩
  · cases h

theorem sound_step (hnested : nested.Sound phrase) :
    Parse.Sound (step context nested) (WritesStep context phrase) := by
  intro ts s rest h
  unfold step at h
  split at h
  · next hdot =>
    cases h
    exact ⟨[.dot], ⟨hdot, by simp, rfl⟩, .self⟩
  · next hdots =>
    cases h
    exact ⟨[.dotDot], ⟨hdots, by simp, rfl⟩, .parent⟩
  · obtain ⟨⟨axis, behindAxis⟩, haxis, h⟩ := bind_eq_ok_iff.1 h
    obtain ⟨⟨test, behindTest⟩, htest, h⟩ := bind_eq_ok_iff.1 h
    obtain ⟨⟨ps, behind⟩, hps, h⟩ := bind_eq_ok_iff.1 h
    cases h
    obtain ⟨u, hu, hwritesAxis⟩ := sound_axisOf haxis
    obtain ⟨v, hv, hwritesTest⟩ := sound_nodeTest htest
    obtain ⟨w, hw, hwritesAll⟩ := sound_predicates hnested hps
    exact ⟨_, hu.append (hv.append hw), .full hwritesAxis hwritesTest hwritesAll⟩

/-- Behind what leads to a step there is one, and further steps may follow. -/
theorem moreSteps_of_leads {oneStep : Parse Step} {ts : List Located} {between : List Step}
    (h : Leads (current ts) between) (fuel : Nat) :
    moreSteps oneStep (fuel + 1) ts = (do
      let (s, ts) ← oneStep ts.tail
      let (more, ts) ← moreSteps oneStep fuel ts
      .ok (between ++ s :: more, ts)) := by
  generalize hcurrent : current ts = t at h
  cases h with
  | slash => simp [moreSteps, hcurrent]
  | doubleSlash => simp [moreSteps, hcurrent]

/-- Where nothing leads to a step there are no further steps. -/
theorem moreSteps_of_not_leads {oneStep : Parse Step} {ts : List Located}
    (h : ∀ between, ¬ Leads (current ts) between) (fuel : Nat) :
    moreSteps oneStep fuel ts = .ok ([], ts) := by
  cases fuel with
  | zero => rfl
  | succ fuel =>
    unfold moreSteps
    split
    · next hcurrent =>
      rw [hcurrent] at h
      exact absurd .slash (h _)
    · next hcurrent =>
      rw [hcurrent] at h
      exact absurd .doubleSlash (h _)
    · rfl

theorem Leads.ne_eof {t : Token} {between : List Step} (h : Leads t between) : t ≠ .eof := by
  cases h <;> simp

/-- Further steps go on with the steps in front of them. -/
theorem sound_moreSteps {oneStep : Parse Step} (hstep : oneStep.Sound (WritesStep context phrase)) :
    ∀ (fuel : Nat) {ts more rest}, moreSteps oneStep fuel ts = .ok (more, rest) →
      ∃ v, Spells ts v rest ∧
        ∀ w s, WritesStep context phrase w s → WritesSteps context phrase (w ++ v) (s :: more)
  | 0, ts, more, rest, h => by
    cases h
    exact ⟨[], rfl, fun w s hs => by simpa using .one hs⟩
  | fuel + 1, ts, more, rest, h => by
    by_cases hleads : ∃ between, Leads (current ts) between
    · obtain ⟨between, hleads⟩ := hleads
      rw [moreSteps_of_leads hleads] at h
      obtain ⟨⟨s, mid⟩, hs, h⟩ := bind_eq_ok_iff.1 h
      obtain ⟨⟨steps, behind⟩, hsteps, h⟩ := bind_eq_ok_iff.1 h
      cases h
      obtain ⟨u, hu, hwrites⟩ := hstep hs
      obtain ⟨v, hv, hmore⟩ := sound_moreSteps hstep fuel hsteps
      exact ⟨current ts :: (u ++ v), ⟨rfl, hleads.ne_eof, hu.append hv⟩,
        fun w t ht => .more ht hleads (hmore u s hwrites)⟩
    · rw [moreSteps_of_not_leads (not_exists.1 hleads)] at h
      cases h
      exact ⟨[], rfl, fun w s hs => by simpa using .one hs⟩

theorem sound_relativePath {oneStep : Parse Step}
    (hstep : oneStep.Sound (WritesStep context phrase)) :
    Parse.Sound (relativePath oneStep) (WritesSteps context phrase) := by
  intro ts steps rest h
  unfold relativePath at h
  obtain ⟨⟨s, mid⟩, hs, h⟩ := bind_eq_ok_iff.1 h
  obtain ⟨⟨more, behind⟩, hmore, h⟩ := bind_eq_ok_iff.1 h
  cases h
  obtain ⟨w, hw, hwrites⟩ := hstep hs
  obtain ⟨v, hv, hsteps⟩ := sound_moreSteps hstep _ hmore
  exact ⟨_, hw.append hv, hsteps w s hwrites⟩

/-! ### Primary expressions and paths -/

theorem sound_primary (hnested : nested.Sound phrase) :
    Parse.Sound (primary context nested) (WritesPrimary context phrase) := by
  intro ts e rest h
  unfold primary at h
  split at h
  · next name hname =>
    cases h
    exact ⟨[.varRef name], ⟨hname, by simp, rfl⟩, .varRef name⟩
  · next body hbody =>
    cases h
    exact ⟨[.literal body], ⟨hbody, by simp, rfl⟩, .literal body⟩
  · next digits hdigits =>
    cases h
    exact ⟨[.number digits], ⟨hdigits, by simp, rfl⟩, .number digits⟩
  · next hopen =>
    obtain ⟨⟨inner, mid⟩, hinner, h⟩ := bind_eq_ok_iff.1 h
    obtain ⟨behind, hclose, h⟩ := bind_eq_ok_iff.1 h
    cases h
    obtain ⟨hcurrent, rfl⟩ := expectToken_eq_ok_iff.1 hclose
    obtain ⟨w, hw, hwrites⟩ := hnested hinner
    have hfront : Spells ts (.leftParen :: w) mid := ⟨hopen, by simp, hw⟩
    have hback : Spells mid [.rightParen] mid.tail := ⟨hcurrent, by simp, rfl⟩
    exact ⟨_, hfront.append hback, .parens hwrites⟩
  · next label localPart hname =>
    obtain ⟨⟨args, mid⟩, hargs, h⟩ := bind_eq_ok_iff.1 h
    obtain ⟨⟨⟩, hchecked, h⟩ := bind_eq_ok_iff.1 h
    cases h
    have hcallable := checkCall_eq_ok_iff.1 hchecked
    obtain ⟨w, hw, hwrites⟩ := sound_argumentList hnested hargs
    cases label with
    | none => exact ⟨.name none localPart :: w, ⟨hname, by simp, hw⟩, .call hwrites hcallable⟩
    | some label => exact absurd hcallable not_callable_labelled
  · cases h

theorem sound_filterExpr (hnested : nested.Sound phrase) :
    Parse.Sound (filterExpr context nested) (WritesFilter context phrase) := by
  intro ts e rest h
  unfold filterExpr at h
  obtain ⟨⟨inner, mid⟩, hinner, h⟩ := bind_eq_ok_iff.1 h
  obtain ⟨⟨ps, behind⟩, hps, h⟩ := bind_eq_ok_iff.1 h
  cases h
  obtain ⟨w, hw, hwrites⟩ := sound_primary hnested hinner
  obtain ⟨v, hv, hall⟩ := sound_predicates hnested hps
  cases ps with
  | nil =>
    cases hall
    cases hv
    exact ⟨w, hw, .bare hwrites⟩
  | cons p ps => exact ⟨_, hw.append hv, .filter hwrites hall (by simp)⟩

theorem sound_path (hnested : nested.Sound phrase) :
    Parse.Sound (path context nested) (WritesPath context phrase) := by
  have hrelative : Parse.Sound (relativePath (step context nested)) (WritesSteps context phrase) :=
    sound_relativePath (sound_step hnested)
  intro ts e rest h
  unfold path at h
  dsimp only at h
  split at h
  · next hslash =>
    split at h
    · obtain ⟨⟨steps, mid⟩, hsteps, h⟩ := bind_eq_ok_iff.1 h
      cases h
      obtain ⟨w, hw, hwrites⟩ := hrelative hsteps
      exact ⟨.slash :: w, ⟨hslash, by simp, hw⟩, .fromRoot .slash hwrites⟩
    · cases h
      exact ⟨[.slash], ⟨hslash, by simp, rfl⟩, .root⟩
  · next hslash =>
    obtain ⟨⟨steps, mid⟩, hsteps, h⟩ := bind_eq_ok_iff.1 h
    cases h
    obtain ⟨w, hw, hwrites⟩ := hrelative hsteps
    exact ⟨.doubleSlash :: w, ⟨hslash, by simp, hw⟩, .fromRoot .doubleSlash hwrites⟩
  · split at h
    · obtain ⟨⟨inner, mid⟩, hinner, h⟩ := bind_eq_ok_iff.1 h
      obtain ⟨w, hw, hfilter⟩ := sound_filterExpr hnested hinner
      dsimp only at h
      split at h
      · next hslash =>
        obtain ⟨⟨steps, behind⟩, hsteps, h⟩ := bind_eq_ok_iff.1 h
        cases h
        obtain ⟨v, hv, hwrites⟩ := hrelative hsteps
        have hback : Spells mid (.slash :: v) _ := ⟨hslash, by simp, hv⟩
        exact ⟨_, hw.append hback, .fromNodes hfilter .slash hwrites⟩
      · next hslash =>
        obtain ⟨⟨steps, behind⟩, hsteps, h⟩ := bind_eq_ok_iff.1 h
        cases h
        obtain ⟨v, hv, hwrites⟩ := hrelative hsteps
        have hback : Spells mid (.doubleSlash :: v) _ := ⟨hslash, by simp, hv⟩
        exact ⟨_, hw.append hback, .fromNodes hfilter .doubleSlash hwrites⟩
      · cases h
        exact ⟨w, hw, .bare hfilter⟩
    · obtain ⟨⟨steps, mid⟩, hsteps, h⟩ := bind_eq_ok_iff.1 h
      cases h
      obtain ⟨w, hw, hwrites⟩ := hrelative hsteps
      exact ⟨w, hw, .relative hwrites⟩

/-! ### Expressions -/

theorem sound_orExpr (hnested : nested.Sound phrase) :
    Parse.Sound (orExpr context nested) (WritesExpr context phrase) := by
  have hpath : Parse.Sound (path context nested) (WritesPath context phrase) := sound_path hnested
  have hproduct := sound_level .product (sound_unary (sound_level .union hpath))
  have horder := sound_level .order (sound_level .sum hproduct)
  exact sound_level .disjunction (sound_level .conjunction (sound_level .equality horder))

/-- Whatever the parser takes for an expression is written by the tokens it takes. -/
theorem sound_parseExpr : ∀ depth : Nat,
    Parse.Sound (parseExpr context depth) (Writes context depth)
  | 0 => fun _ _ _ h => by cases h
  | depth + 1 => sound_orExpr (sound_parseExpr depth)

end MarkupRules.Query
