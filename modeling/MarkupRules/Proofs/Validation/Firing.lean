/-
# Which rules fire, and what they find

In a pattern of which all expressions have values, exactly the nodes that some rule selects are
handled, each once and in document order, by the first rule that selects it. Every check of that
rule is tried there with the variables of the rule in sight, and there is one finding for each
assertion whose test is false and each report whose test is true, in the order of the nodes and
then of the checks.

Key definitions: `Handles`, `Evaluates`, `finds`, `Tells`.

Key theorems: `handles_handled`, `checks_find`, `rule_fires`, `defineAll_sound`,
`first_rules_fire_in_document_order`.
-/
import MarkupRules.Proofs.Validation.Matching
import MarkupRules.Proofs.Validation.Stack

namespace MarkupRules.Validation

open Markup (Built Document)
open Markup.Document (root)
open Program (Check CheckKind Definition Pattern Rule)
open Query (Index Place Precedes Scope Value places)

/-! ### The nodes that are handled -/

/-- Places with the rules that handle them: exactly those that some rule selects, each once and in
document order, each with the first rule in the order of declaration that selects it. -/
structure Handles (ix : Index) (scope : Scope) (rules : List (Rule Query))
    (ms : List (Place × Rule Query)) : Prop where
  /-- The places come in document order, each once. -/
  ascending : (ms.map Prod.fst).Pairwise (Precedes ix.doc)
  /-- They are the places that some rule selects. -/
  selected : ∀ p, p ∈ ms.map Prod.fst ↔ ∃ rule ∈ rules, p ∈ selectedBy ix scope rule
  /-- Each comes with the first rule that selects it. -/
  first : ∀ m ∈ ms, ruleFor? ix scope rules m.1 = some m.2

variable {d : Document} {scope : Scope}

theorem mem_handled (h : d.Linked) (hscope : scope.Sound d) {rules : List (Rule Query)}
    {m : Place × Rule Query} :
    m ∈ handled (.ofDocument d) scope rules ↔
      ruleFor? (.ofDocument d) scope rules m.1 = some m.2 := by
  rw [handled, List.mem_filterMap]
  constructor
  · rintro ⟨p, -, hp⟩
    obtain ⟨rule, hrule, rfl⟩ := Option.map_eq_some_iff.1 hp
    exact hrule
  · intro hm
    have hselected : m.1 ∈ selectedBy (.ofDocument d) scope m.2 := by
      simpa using List.find?_some hm
    exact ⟨m.1, (Query.mem_places h).2 (selectedBy_isIn h hscope _ _ hselected), by rw [hm]; rfl⟩

/-- What is handled is what is said of it. -/
theorem handles_handled (h : d.Linked) (hscope : scope.Sound d) (rules : List (Rule Query)) :
    Handles (.ofDocument d) scope rules (handled (.ofDocument d) scope rules) := by
  have hkeys : (handled (.ofDocument d) scope rules).map Prod.fst =
      (places d).filter fun p => (ruleFor? (.ofDocument d) scope rules p).isSome := by
    rw [handled, List.map_filterMap, ← List.filterMap_eq_filter]
    refine List.filterMap_congr fun p _ => ?_
    rcases hp : ruleFor? (.ofDocument d) scope rules p with _ | rule <;> simp [Option.guard, hp]
  refine ⟨?_, fun p => ?_, fun m hm => (mem_handled h hscope).1 hm⟩
  · rw [hkeys]
    exact ((Query.isNodeSet_places h).sublist List.filter_sublist).ascending
  · rw [hkeys, List.mem_filter, ruleFor?, List.find?_isSome]
    simp only [decide_eq_true_eq]
    refine and_iff_right_of_imp ?_
    rintro ⟨rule, -, hp⟩
    exact (Query.mem_places h).2 (selectedBy_isIn h hscope rule p hp)

/-! ### What a rule finds -/

section Rule

variable (ix : Index) (scope : Scope)

/-- The variables in sight of the checks of a rule at a node. -/
def ruleScope (m : Place × Rule Query) : Scope :=
  match defineAll ix m.1 m.2.definitions scope with
  | .ok inner => inner
  | .error _ => scope

/-- All expressions that are needed where a rule fires have values: its variables, the tests of its
checks, and the messages of those that find something. -/
structure Evaluates (m : Place × Rule Query) : Prop where
  /-- The variables have values. -/
  definitions : ∃ inner, defineAll ix m.1 m.2.definitions scope = .ok inner
  /-- Tests and messages have values. -/
  checks : ∀ c ∈ m.2.checks, ∃ holds, ix.test c.test m.1 (ruleScope ix scope m) = .ok holds ∧
    (c.kind.fires holds → ∃ message,
      messageText ix m.1 (ruleScope ix scope m) c.message = .ok message)

/-- Whether a check is an assertion whose test is false, or a report whose test is true, and which
of the two. -/
def finds (kind : CheckKind) (m : Place × Rule Query) (c : Check Query) : Bool :=
  match kind, c.kind, ix.test c.test m.1 (ruleScope ix scope m) with
  | .assertion, .assertion, .ok holds => !holds
  | .report, .report, .ok holds => holds
  | _, _, _ => false

/-- A finding tells of a check of a rule in a pattern at a node. -/
def Tells (pattern : Option String) (m : Place × Rule Query) (c : Check Query) (f : Finding) :
    Prop :=
  ∃ message, messageText ix m.1 (ruleScope ix scope m) c.message = .ok message ∧
    f = { kind := c.kind
          notes := ⟨c.notes.id, c.notes.role <|> m.2.notes.role, c.notes.flag <|> m.2.notes.flag⟩
          test := c.test.source
          location := location ix.doc m.1
          pattern
          rule := m.2.notes.id
          message }

variable {ix scope} (pattern : Option String) {m : Place × Rule Query}

theorem finds_iff {kind : CheckKind} {c : Check Query} {holds : Bool}
    (htest : ix.test c.test m.1 (ruleScope ix scope m) = .ok holds) :
    finds ix scope kind m c ↔ c.kind = kind ∧ c.kind.fires holds := by
  unfold finds
  rw [htest]
  cases kind <;> cases c.kind <;> simp [CheckKind.fires]

/-- Checks find something one by one: in their order, one finding for each that finds something. -/
theorem checks_find : ∀ {cs : List (Check Query)},
    (∀ c ∈ cs, ∃ holds, ix.test c.test m.1 (ruleScope ix scope m) = .ok holds ∧
      (c.kind.fires holds → ∃ message,
        messageText ix m.1 (ruleScope ix scope m) c.message = .ok message)) →
    ∃ found, cs.mapM (runCheck ix pattern m.2 m.1 (ruleScope ix scope m)) = .ok found ∧
      ∀ kind, List.Forall₂ (Tells ix scope pattern m) (cs.filter (finds ix scope kind m))
        (found.flatten.filter fun f => f.kind = kind)
  | [], _ => ⟨[], rfl, fun _ => .nil⟩
  | c :: cs, hcs => by
    obtain ⟨⟨holds, htest, hmessage⟩, hcs⟩ := List.forall_mem_cons.1 hcs
    obtain ⟨found, hfound, htells⟩ := checks_find hcs
    have houtcome : outcome c.test (ix.test c.test m.1 (ruleScope ix scope m)) = .ok holds := by
      rw [htest, outcome]
    -- A check that fires adds one finding to both sides if it is of the kind; no other check does.
    by_cases hfires : c.kind.fires holds
    · obtain ⟨message, htext⟩ := hmessage hfires
      obtain ⟨f, hf⟩ : ∃ f, Tells ix scope pattern m c f := ⟨_, message, htext, rfl⟩
      have hkind : f.kind = c.kind := by
        obtain ⟨_, -, rfl⟩ := hf
        rfl
      have hrun : runCheck ix pattern m.2 m.1 (ruleScope ix scope m) c = .ok [f] := by
        obtain ⟨text, htext, rfl⟩ := hf
        refine bind_eq_ok_iff.2 ⟨holds, houtcome, ?_⟩
        rw [if_pos hfires]
        exact bind_eq_ok_iff.2 ⟨text, htext, rfl⟩
      refine ⟨[f] :: found, mapM_eq_ok_iff.2 (.cons hrun (mapM_eq_ok_iff.1 hfound)), fun kind => ?_⟩
      rw [List.flatten_cons, List.singleton_append]
      by_cases hc : c.kind = kind
      · rw [List.filter_cons_of_pos ((finds_iff htest).2 ⟨hc, hfires⟩),
          List.filter_cons_of_pos (by simp [hkind, hc])]
        exact .cons hf (htells kind)
      · rw [List.filter_cons_of_neg fun hfinds => hc ((finds_iff htest).1 hfinds).1,
          List.filter_cons_of_neg (by simp [hkind, hc])]
        exact htells kind
    · have hrun : runCheck ix pattern m.2 m.1 (ruleScope ix scope m) c = .ok [] := by
        refine bind_eq_ok_iff.2 ⟨holds, houtcome, ?_⟩
        rw [if_neg hfires]
      refine ⟨[] :: found, mapM_eq_ok_iff.2 (.cons hrun (mapM_eq_ok_iff.1 hfound)), fun kind => ?_⟩
      rw [List.flatten_cons, List.nil_append,
        List.filter_cons_of_neg fun hfinds => hfires ((finds_iff htest).1 hfinds).2]
      exact htells kind

/-- What happens where a rule fires: it is noted with its node, and its checks find something one by
one. -/
structure Fires (ix : Index) (scope : Scope) (pattern : Option String) (m : Place × Rule Query)
    (f : Firing) : Prop where
  /-- The node. -/
  place : f.place = m.1
  /-- The context as written. -/
  context : f.context = m.2.context.source
  /-- What the rule says about itself. -/
  notes : f.notes = m.2.notes
  /-- What the checks of a kind find. -/
  findings : ∀ kind, List.Forall₂ (Tells ix scope pattern m)
    (m.2.checks.filter (finds ix scope kind m)) (f.findings.filter fun f => f.kind = kind)

/-- Where all expressions of a rule have values, it fires. -/
theorem rule_fires (hm : Evaluates ix scope m) :
    ∃ f, runRule ix pattern m.1 m.2 scope = .ok (f, scope) ∧ Fires ix scope pattern m f := by
  obtain ⟨inner, hinner⟩ := hm.definitions
  have hscope : ruleScope ix scope m = inner := by
    rw [ruleScope, hinner]
  obtain ⟨found, hfound, htells⟩ := checks_find pattern hm.checks
  rw [hscope] at hfound
  exact ⟨_, runRule_eq_ok_iff.2 ⟨rfl, inner, found, hinner, hfound, rfl⟩, rfl, rfl, rfl, htells⟩

end Rule

/-! ### Variables are sound -/

theorem parameterScope_sound (parameters : Option Parameters) :
    (parameterScope parameters).Sound d := by
  have hempty : Scope.empty.Sound d := by
    intro b hb
    cases hb
  have hscalar : ∀ s : Scalar, (Value.ofScalar s).Sound d := by
    intro s
    cases s <;> exact trivial
  have hall : ∀ (es : List (String × Scalar)) (s : Scope), s.Sound d →
      (es.foldl (fun s e => s.push e.1 (Value.ofScalar e.2)) s).Sound d := by
    intro es
    induction es with
    | nil => exact fun s hs => hs
    | cons e es ih => exact fun s hs => ih _ (hs.push e.1 (hscalar e.2))
  cases parameters with
  | none => exact hempty
  | some ps => exact hall ps.entries _ hempty

theorem defineAll_sound (h : d.Linked) {p : Place} (hp : p.IsIn d) :
    ∀ {ds : List (Definition Query)} {scope inner : Scope}, scope.Sound d →
      defineAll (.ofDocument d) p ds scope = .ok inner → inner.Sound d
  | [], _, _, hscope, hdefine => by
    cases hdefine
    exact hscope
  | e :: ds, scope, inner, hscope, hdefine => by
    unfold defineAll at hdefine
    obtain ⟨v, hv, hdefine⟩ := bind_eq_ok_iff.1 hdefine
    have hvalue : (Index.ofDocument d).evaluate e.value p scope = .ok v := by
      unfold outcome at hv
      split at hv
      · cases hv
        assumption
      · cases hv
    have hsound : v.Sound d := Index.eval_sound h hscope _ _ (.single p) v hp hvalue
    exact defineAll_sound h hp (hscope.push e.name hsound) hdefine

/-- A pattern finds its variables as the patterns before it found theirs. -/
theorem scope_of_reached {before : List (Pattern Query)} {reached : Scope}
    {runs : List PatternRun}
    (hbefore : onStackAll (runPattern (.ofDocument d)) before scope = .ok (runs, reached)) :
    reached = scope :=
  ((onStackAll_eq_ok_iff restores_runPattern).1 hbefore).1

/-! ### Patterns -/

/-- A pattern that a run of a program on a document comes to after other patterns, all of whose
expressions have values where they are needed. The rules that fire are listed for exactly the
nodes that the context of some rule selects, each once and in document order, with the first rule
that selects it. The findings of each kind are those of its checks at these nodes, one for each
check that finds something. -/
theorem first_rules_fire_in_document_order (hbuilt : Built d) (program : Program Query)
    (parameters : Option Parameters) (before : List (Pattern Query)) (pattern : Pattern Query)
    {global reached inner : Scope} {runs : List PatternRun}
    (hglobals : defineAll (.ofDocument d) (.node root) program.definitions
      (parameterScope parameters) = .ok global)
    (hbefore : onStackAll (runPattern (.ofDocument d)) before global = .ok (runs, reached))
    (hlocals : defineAll (.ofDocument d) (.node root) pattern.definitions reached = .ok inner)
    (hcontexts : ∀ rule ∈ pattern.rules, ∃ ps,
      (Index.ofDocument d).select rule.context (.node root) inner = .ok ps)
    (hrules : ∀ p rule, ruleFor? (.ofDocument d) inner pattern.rules p = some rule →
      Evaluates (.ofDocument d) inner (p, rule)) :
    ∃ run ms, runPattern (.ofDocument d) pattern reached = .ok (run, reached) ∧
      Handles (.ofDocument d) inner pattern.rules ms ∧
      run.firedRules d = ms.map (fun m =>
        ⟨pattern.id, m.2.notes.id, m.2.context.source, location d m.1⟩) ∧
      ∀ kind, List.Forall₂
        (fun (x : (Place × Rule Query) × Check Query) f =>
          Tells (.ofDocument d) inner pattern.id x.1 x.2 f)
        (ms.flatMap fun m =>
          (m.2.checks.filter (finds (.ofDocument d) inner kind m)).map fun c => (m, c))
        (run.findingsOf kind) := by
  have h := hbuilt.linked
  have hroot := Query.isIn_root h
  obtain rfl := scope_of_reached hbefore
  have hinner : inner.Sound d :=
    defineAll_sound h hroot (defineAll_sound h hroot (parameterScope_sound parameters) hglobals)
      hlocals
  have hfires : ∀ m ∈ handled (.ofDocument d) inner pattern.rules, ∃ f,
      runRule (.ofDocument d) pattern.id m.1 m.2 inner = .ok (f, inner) ∧
        Fires (.ofDocument d) inner pattern.id m f :=
    fun m hm => rule_fires pattern.id (hrules m.1 m.2 ((mem_handled h hinner).1 hm))
  obtain ⟨firings, hall⟩ := exists_forall₂ hfires
  refine ⟨⟨pattern.id, pattern.title, firings⟩, _, ?_, handles_handled h hinner pattern.rules,
    ?_, fun kind => ?_⟩
  · refine runPattern_eq_ok_iff.2 ⟨rfl, inner, _, firings, hlocals, matchesOf_eq hcontexts, ?_, rfl⟩
    rw [firstMatches_eq_handled h hinner]
    exact hall.imp fun m f hf => hf.1
  · rw [PatternRun.firedRules, ← List.forall₂_eq_eq_eq, List.forall₂_map_left_iff,
      List.forall₂_map_right_iff]
    refine hall.flip.imp fun f m hf => ?_
    rw [hf.2.place, hf.2.context, hf.2.notes]
  · refine List.rel_flatMap hall fun m f hf => ?_
    rw [List.forall₂_map_left_iff]
    exact hf.2.findings kind

/-- On the shelf the identified book is handled by the first rule, and its identifier and the other
book by the second, which selects the identified book as well. -/
theorem first_rules_fire_on_shelf :
    ∃ run ms, runPattern (.ofDocument .shelf) overlappingPattern
        (Scope.empty.push "open" (.truth true)) =
          .ok (run, Scope.empty.push "open" (.truth true)) ∧
      Handles (.ofDocument .shelf)
        ((Scope.empty.push "open" (.truth true)).push "open" (.truth false))
        overlappingPattern.rules ms ∧
      run.firedRules .shelf = ms.map fun m =>
        ⟨some "overlapping", m.2.notes.id, m.2.context.source, location .shelf m.1⟩ := by
  have hidentified : selectedBy (.ofDocument .shelf)
      ((Scope.empty.push "open" (.truth true)).push "open" (.truth false))
      overlappingPattern.rules[0] = [.node 2] := rfl
  have hany : selectedBy (.ofDocument .shelf)
      ((Scope.empty.push "open" (.truth true)).push "open" (.truth false))
      overlappingPattern.rules[1] = [.node 2, .attr 2 0, .node 5] := rfl
  have hrules : ∀ p rule, ruleFor? (.ofDocument .shelf)
      ((Scope.empty.push "open" (.truth true)).push "open" (.truth false))
      overlappingPattern.rules p = some rule → Evaluates (.ofDocument .shelf)
      ((Scope.empty.push "open" (.truth true)).push "open" (.truth false)) (p, rule) := by
    intro p rule hrule
    have hmem : rule ∈ overlappingPattern.rules := List.mem_of_find?_eq_some hrule
    have hp : p ∈ selectedBy (.ofDocument .shelf)
        ((Scope.empty.push "open" (.truth true)).push "open" (.truth false)) rule := by
      simpa using List.find?_some hrule
    rcases List.mem_cons.1 hmem with rfl | hmem
    · obtain rfl := List.mem_singleton.1 (hidentified ▸ hp)
      refine ⟨⟨_, rfl⟩, fun c hc => ?_⟩
      obtain rfl := List.mem_singleton.1 hc
      exact ⟨false, rfl, fun _ => ⟨_, rfl⟩⟩
    · obtain rfl := List.mem_singleton.1 hmem
      refine ⟨⟨_, rfl⟩, fun c hc => ?_⟩
      obtain rfl := List.mem_singleton.1 hc
      exact ⟨true, rfl, fun _ => ⟨_, rfl⟩⟩
  obtain ⟨run, ms, hrun, hms, hfired, -⟩ := first_rules_fire_in_document_order
    Markup.built_shelf shelfProgram none [] overlappingPattern rfl rfl rfl
    (by
      intro rule hrule
      rcases List.mem_cons.1 hrule with rfl | hrule
      · exact ⟨[.node 2], rfl⟩
      · obtain rfl := List.mem_singleton.1 hrule
        exact ⟨[.node 2, .attr 2 0, .node 5], rfl⟩) hrules
  exact ⟨run, ms, hrun, hms, hfired⟩

end MarkupRules.Validation
