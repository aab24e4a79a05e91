/-
# Schemas and the programs they become

A schema is compiled to a program, which is kept as a document, and the document is bound again.
On the way nothing is lost and nothing comes in: the bound program has the patterns of the schema
that are active in its phase, with their rules, checks and messages, as the schema has them. What
can go wrong in binding is only an expression without a meaning.

Key definitions: `SaysAll`, `Defines`, `Tests`, `Rules`, `Groups`, `Agrees`.

Key theorems: `translate_fails`, `programOf_agrees`, `bound_program_agrees_with_schema`.
-/
import MarkupRules.Proofs.Program.Reading
import MarkupRules.Proofs.Query.Compiled
import MarkupRules.Schema.Compilation

namespace MarkupRules

open Markup (Document Tree)

namespace Program

open Query (QueryError)

variable {ε : Type}

/-! ### What goes wrong in binding -/

/-- If something fails, then because of an expression. -/
def FailsByExpression {α : Type} (x : Except ProgramError α) : Prop :=
  ∀ e, x = .error e → ∃ source cause, e = .expression source cause

namespace FailsByExpression

variable {α β : Type}

theorem ok (a : α) : FailsByExpression (.ok a) :=
  FailsOnlyBy.ok a

theorem readAs (read : String → Except QueryError ε) (source : String) :
    FailsByExpression (readAs read source) := by
  intro e h
  unfold Program.readAs at h
  split at h
  · cases h
  · cases h
    exact ⟨_, _, rfl⟩

theorem bind {x : Except ProgramError α} {f : α → Except ProgramError β}
    (hx : FailsByExpression x) (hf : ∀ a, FailsByExpression (f a)) :
    FailsByExpression (x >>= f) :=
  FailsOnlyBy.bind hx hf

theorem mapM {f : α → Except ProgramError β} (hf : ∀ a, FailsByExpression (f a)) (xs : List α) :
    FailsByExpression (xs.mapM f) :=
  FailsOnlyBy.mapM hf xs

end FailsByExpression

section

variable (reading : Reading ε)

theorem definition_fails (d : Definition String) : FailsByExpression (d.translate reading) :=
  .bind (.readAs _ _) fun _ => .ok _

theorem part_fails (part : MessagePart String) : FailsByExpression (part.translate reading) := by
  cases part with
  | text s => exact .ok _
  | value source => exact .bind (.readAs _ _) fun _ => .ok _
  | name source => exact .bind (.readAs _ _) fun _ => .ok _

theorem check_fails (c : Check String) : FailsByExpression (c.translate reading) :=
  .bind (.mapM (part_fails reading) _) fun _ => .bind (.readAs _ _) fun _ => .ok _

theorem rule_fails (r : Rule String) : FailsByExpression (r.translate reading) :=
  .bind (.mapM (check_fails reading) _) fun _ => .bind (.readAs _ _) fun _ =>
    .bind (.mapM (definition_fails reading) _) fun _ => .ok _

theorem pattern_fails (p : Pattern String) : FailsByExpression (p.translate reading) :=
  .bind (.mapM (definition_fails reading) _) fun _ =>
    .bind (.mapM (rule_fails reading) _) fun _ => .ok _

end

/-- Where the expressions of a program cannot be read, one of them has no meaning. -/
theorem translate_fails (reading : Query.Context → Reading ε) (p : Program String) :
    FailsByExpression (p.translate reading) :=
  .bind (.mapM (definition_fails _) _) fun _ => .bind (.mapM (pattern_fails _) _) fun _ => .ok _

theorem readAs_eq_ok_iff {read : String → Except QueryError ε} {source : String} {e : ε} :
    readAs read source = .ok e ↔ read source = .ok e := by
  unfold readAs
  split <;> simp [*]

/-- A compiled query keeps its text. -/
theorem source_of_compile {source : String} {c : Query.Context} {q : Query}
    (h : Query.compile source c = .ok q) : q.source = source := by
  obtain ⟨ts, -, -, hsource⟩ := Query.compile_eq_ok_iff.1 h
  exact hsource

theorem source_of_compilePattern {source : String} {c : Query.Context} {q : Query}
    (h : Query.compilePattern source c = .ok q) : q.source = source := by
  obtain ⟨q', hq', rfl⟩ := map_eq_ok_iff.1 h
  have hsource : q'.source = source := source_of_compile hq'
  exact hsource

end Program

namespace Schema

open Program (Check CheckKind Definition MessagePart Notes Pattern Rule)

/-! ### What stands in a schema and in the program -/

mutual

/-- The parts that a node in the content of a check contributes to the message. -/
inductive Says : Tree → List (MessagePart String) → Prop
  /-- Character data is said as it stands. -/
  | text (s : String) (below : List Tree) : Says (.node (.text s) below) [.text s]
  /-- An element for a value says the value of what it selects. -/
  | value {t : Tree} {source : String} : isTerm t "value-of" →
    t.attribute? "select" = some source → Says t [.value source]
  /-- An element for a name says the name of what its path leads to, or else of the node. -/
  | name {t : Tree} : isTerm t "name" → Says t [.name ((t.attribute? "path").getD ".")]
  /-- Other markup says what is in it. -/
  | markup {t : Tree} {parts : List (MessagePart String)} : t.element?.isSome →
    isTerm t "value-of" = false → isTerm t "name" = false → SaysAll t.children parts →
    Says t parts
  /-- Comments and processing instructions say nothing. -/
  | silent {t : Tree} : t.element? = none → (∀ s, t.payload ≠ .text s) → Says t []

/-- The parts that nodes contribute to a message, one after the other. -/
inductive SaysAll : List Tree → List (MessagePart String) → Prop
  /-- No nodes, no parts. -/
  | nil : SaysAll [] []
  /-- A node and those behind it. -/
  | cons {t : Tree} {ts : List Tree} {here more : List (MessagePart String)} :
    Says t here → SaysAll ts more → SaysAll (t :: ts) (here ++ more)

end

variable (c : Query.Context)

/-- A part of a message with its expression compiled. -/
inductive Means : MessagePart String → MessagePart Query → Prop
  /-- Text stays. -/
  | text (s : String) : Means (.text s) (.text s)
  /-- The expression of a value. -/
  | value {q : Query} : Query.compile q.source c = .ok q → Means (.value q.source) (.value q)
  /-- The path to what is named. -/
  | name {q : Query} : Query.compile q.source c = .ok q → Means (.name q.source) (.name q)

/-- An element defines a variable. -/
structure Defines (t : Tree) (d : Definition Query) : Prop where
  /-- The name. -/
  name : t.attribute? "name" = some d.name
  /-- The expression as written. -/
  value : t.attribute? "value" = some d.value.source
  /-- The expression compiled. -/
  compiled : Query.compile d.value.source c = .ok d.value

/-- An element stands for a check. -/
structure Tests (t : Tree) (k : Check Query) : Prop where
  /-- The kind. -/
  kind : isTerm t k.kind.label
  /-- The test as written. -/
  test : t.attribute? "test" = some k.test.source
  /-- The test compiled. -/
  compiled : Query.compile k.test.source c = .ok k.test
  /-- Identifier, role and flag. -/
  notes : k.notes = ⟨t.attribute? "id", t.attribute? "role", t.attribute? "flag"⟩
  /-- The message: what the content says, with neighbouring texts joined. -/
  message : ∃ parts, SaysAll t.children parts ∧
    List.Forall₂ (Means c) (MessagePart.joined parts) k.message

/-- An element stands for a rule. -/
structure Rules (t : Tree) (r : Rule Query) : Prop where
  /-- The context as written. -/
  context : t.attribute? "context" = some r.context.source
  /-- The context compiled, as a pattern of nodes. -/
  compiled : Query.compilePattern r.context.source c = .ok r.context
  /-- Identifier, role and flag. -/
  notes : r.notes = ⟨t.attribute? "id", t.attribute? "role", t.attribute? "flag"⟩
  /-- The variables in order. -/
  definitions : List.Forall₂ (Defines c) (parts t "let") r.definitions
  /-- The checks of both kinds in order. -/
  checks : List.Forall₂ (Tests c)
    (t.childElements.filter fun k => isTerm k "assert" || isTerm k "report") r.checks

/-- An element stands for a pattern. -/
structure Groups (t : Tree) (p : Pattern Query) : Prop where
  /-- The identifier. -/
  id : p.id = t.attribute? "id"
  /-- The title, its words separated by single spaces. -/
  title : p.title = (parts t "title").head?.map fun title => Text.collapse title.stringValue
  /-- The variables in order. -/
  definitions : List.Forall₂ (Defines c) (parts t "let") p.definitions
  /-- The rules in order, without the abstract ones. -/
  rules : List.Forall₂ (Rules c) ((parts t "rule").filter fun r => !isAbstract r) p.rules

/-- An element declares a namespace. -/
def Binds (t : Tree) (n : String × String) : Prop :=
  t.attribute? "prefix" = some n.1 ∧ t.attribute? "uri" = some n.2

/-- The elements that define variables in a phase. -/
def PhaseChoice.lets (choice : PhaseChoice) : List Tree :=
  choice.declaration.elim [] fun t => parts t "let"

/-- A program is what a schema says in a phase and a dialect. -/
structure Agrees (schema : Tree) (choice : PhaseChoice) (d : Dialect) (p : Program Query) :
    Prop where
  /-- The dialect. -/
  dialect : p.dialect = d
  /-- The name of the phase. -/
  phase : p.phase = choice.name
  /-- The title, its words separated by single spaces. -/
  title : p.title = (parts schema "title").head?.map fun title => Text.collapse title.stringValue
  /-- The declared namespaces in order. -/
  namespaces : List.Forall₂ Binds (parts schema "ns") p.namespaces
  /-- The variables of the schema, then those of the phase. -/
  definitions : List.Forall₂ (Defines p.context) (parts schema "let" ++ choice.lets) p.definitions
  /-- The patterns in order, without the abstract ones and those that the phase leaves out. -/
  patterns : List.Forall₂ (Groups p.context)
    ((parts schema "pattern").filter fun t => !isAbstract t && choice.includes t) p.patterns

/-! ### What compiling and binding do to each part -/

theorem demand_eq_ok_iff {t : Tree} {localPart owner value : String} :
    demand t localPart owner = .ok value ↔ t.attribute? localPart = some value := by
  unfold demand
  split <;> simp [*]

mutual

theorem says_of_messageParts : ∀ {t : Tree} {parts : List (MessagePart String)},
    messageParts t = .ok parts → Says t parts
  | .node payload below, parts, h => by
    unfold messageParts at h
    dsimp only at h
    split at h
    · cases h
      exact .text _ below
    · next e =>
      split at h
      · next hvalue =>
        obtain ⟨source, hsource, h⟩ := bind_eq_ok_iff.1 h
        cases h
        exact .value hvalue (demand_eq_ok_iff.1 hsource)
      · next hvalue =>
        split at h
        · next hname =>
          cases h
          exact .name hname
        · next hname =>
          exact .markup rfl (by simpa using hvalue) (by simpa using hname)
            (saysAll_of_messageParts h)
    · next htext helement =>
      cases h
      refine .silent ?_ fun s hs => htext s hs
      unfold Tree.element?
      split
      · next e he => exact absurd he (helement e)
      · rfl

theorem saysAll_of_messageParts : ∀ {ts : List Tree} {parts : List (MessagePart String)},
    messagePartsOfAll ts = .ok parts → SaysAll ts parts
  | [], parts, h => by
    cases h
    exact .nil
  | t :: ts, parts, h => by
    unfold messagePartsOfAll at h
    obtain ⟨here, hhere, h⟩ := bind_eq_ok_iff.1 h
    obtain ⟨more, hmore, h⟩ := bind_eq_ok_iff.1 h
    cases h
    exact .cons (says_of_messageParts hhere) (saysAll_of_messageParts hmore)

end

variable {c}

theorem means_of_translate {part : MessagePart String} {out : MessagePart Query}
    (h : part.translate (Program.compiled c) = .ok out) : Means c part out := by
  cases part with
  | text s =>
    cases h
    exact .text s
  | value source =>
    obtain ⟨q, hq, h⟩ := bind_eq_ok_iff.1 h
    cases h
    have hcompile : Query.compile source c = .ok q := Program.readAs_eq_ok_iff.1 hq
    obtain rfl := Program.source_of_compile hcompile
    exact .value hcompile
  | name source =>
    obtain ⟨q, hq, h⟩ := bind_eq_ok_iff.1 h
    cases h
    have hcompile : Query.compile source c = .ok q := Program.readAs_eq_ok_iff.1 hq
    obtain rfl := Program.source_of_compile hcompile
    exact .name hcompile

theorem defines_of_translate {t : Tree} {d : Definition String} {out : Definition Query}
    (ht : schemaDefinition t = .ok d) (h : d.translate (Program.compiled c) = .ok out) :
    Defines c t out := by
  obtain ⟨name, hname, ht⟩ := bind_eq_ok_iff.1 ht
  obtain ⟨value, hvalue, ht⟩ := bind_eq_ok_iff.1 ht
  cases ht
  obtain ⟨q, hq, h⟩ := bind_eq_ok_iff.1 h
  cases h
  have hcompile : Query.compile value c = .ok q := Program.readAs_eq_ok_iff.1 hq
  obtain rfl := Program.source_of_compile hcompile
  exact ⟨demand_eq_ok_iff.1 hname, demand_eq_ok_iff.1 hvalue, hcompile⟩

theorem schemaCheckKind?_eq_some {t : Tree} {kind : CheckKind}
    (h : schemaCheckKind? t = some kind) : isTerm t kind.label := by
  unfold schemaCheckKind? at h
  split at h
  · cases h
    assumption
  · split at h
    · cases h
      assumption
    · cases h

theorem tests_of_translate {kind : CheckKind} {t : Tree} {k : Check String} {out : Check Query}
    (hkind : isTerm t kind.label) (ht : schemaCheck kind t = .ok k)
    (h : k.joined.translate (Program.compiled c) = .ok out) : Tests c t out := by
  obtain ⟨test, htest, ht⟩ := bind_eq_ok_iff.1 ht
  obtain ⟨content, hcontent, ht⟩ := bind_eq_ok_iff.1 ht
  cases ht
  obtain ⟨message, hmessage, h⟩ := bind_eq_ok_iff.1 h
  obtain ⟨q, hq, h⟩ := bind_eq_ok_iff.1 h
  cases h
  have hcompile : Query.compile test c = .ok q := Program.readAs_eq_ok_iff.1 hq
  obtain rfl := Program.source_of_compile hcompile
  exact ⟨hkind, demand_eq_ok_iff.1 htest, hcompile, rfl, content,
    saysAll_of_messageParts hcontent,
    (mapM_eq_ok_iff.1 hmessage).imp fun _ _ => means_of_translate⟩

/-- Elements that are read or compiled one by one are related one by one to what comes of them. -/
theorem forall₂_of_mapM {α β : Type} {R : Tree → β → Prop} {f : Tree → Except StageError α}
    {g : α → Except ProgramError β} (hR : ∀ t a b, f t = .ok a → g a = .ok b → R t b)
    {ts : List Tree} {as : List α} {bs : List β} (hf : ts.mapM f = .ok as)
    (hg : as.mapM g = .ok bs) : List.Forall₂ R ts bs :=
  forall₂_comp hR (mapM_eq_ok_iff.1 hf) (mapM_eq_ok_iff.1 hg)

theorem map_snd_kinds (ts : List Tree) :
    ((ts.filterMap fun k => (schemaCheckKind? k).map fun kind => (kind, k)).map Prod.snd) =
      ts.filter fun k => isTerm k "assert" || isTerm k "report" := by
  induction ts with
  | nil => rfl
  | cons t ts ih =>
    have hkind : schemaCheckKind? t = if isTerm t "assert" then some .assertion
      else if isTerm t "report" then some .report else none := rfl
    rw [List.filterMap_cons, List.filter_cons, hkind, ← ih]
    by_cases hassert : isTerm t "assert" = true
    · simp [hassert]
    · by_cases hreport : isTerm t "report" = true
      · simp [hassert, hreport]
      · simp [hassert, hreport]

/-- The elements for checks with their kinds. -/
def kinds (t : Tree) : List (CheckKind × Tree) :=
  t.childElements.filterMap fun k => (schemaCheckKind? k).map fun kind => (kind, k)

theorem isTerm_of_mem_kinds {t : Tree} : ∀ x ∈ kinds t, isTerm x.2 x.1.label := by
  intro x hx
  obtain ⟨k, -, hk⟩ := List.mem_filterMap.1 hx
  obtain ⟨kind, hkind, rfl⟩ := Option.map_eq_some_iff.1 hk
  exact schemaCheckKind?_eq_some hkind

theorem checks_of_translate {t : Tree} {ks : List (Check String)} {out : List (Check Query)}
    (ht : schemaChecks t = .ok ks)
    (h : (ks.map Check.joined).mapM (Check.translate (Program.compiled c)) = .ok out) :
    List.Forall₂ (Tests c)
      (t.childElements.filter fun k => isTerm k "assert" || isTerm k "report") out := by
  rw [List.mapM_map] at h
  rw [← map_snd_kinds, List.forall₂_map_left_iff]
  have hall : List.Forall₂ (fun (x : CheckKind × Tree) k => isTerm x.2 x.1.label → Tests c x.2 k)
      (kinds t) out := by
    refine forall₂_comp ?_ (mapM_eq_ok_iff.1 ht) (mapM_eq_ok_iff.1 h)
    intro x k compiled hx hk hkind
    exact tests_of_translate hkind hx hk
  exact ((List.forall₂_and_left _ _).2 ⟨isTerm_of_mem_kinds, hall⟩).imp fun x k hx => hx.2 hx.1

theorem rules_of_translate {t : Tree} {r : Rule String} {out : Rule Query}
    (ht : schemaRule t = .ok r) (h : r.joined.translate (Program.compiled c) = .ok out) :
    Rules c t out := by
  obtain ⟨context, hcontext, ht⟩ := bind_eq_ok_iff.1 ht
  obtain ⟨definitions, hdefinitions, ht⟩ := bind_eq_ok_iff.1 ht
  obtain ⟨checks, hchecks, ht⟩ := bind_eq_ok_iff.1 ht
  cases ht
  obtain ⟨checks', hchecks', h⟩ := bind_eq_ok_iff.1 h
  obtain ⟨q, hq, h⟩ := bind_eq_ok_iff.1 h
  obtain ⟨definitions', hdefinitions', h⟩ := bind_eq_ok_iff.1 h
  cases h
  have hcompile : Query.compilePattern context c = .ok q := Program.readAs_eq_ok_iff.1 hq
  obtain rfl := Program.source_of_compilePattern hcompile
  exact ⟨demand_eq_ok_iff.1 hcontext, hcompile, rfl,
    forall₂_of_mapM (fun _ _ _ => defines_of_translate) hdefinitions hdefinitions',
    checks_of_translate hchecks hchecks'⟩

theorem groups_of_translate {t : Tree} {p : Pattern String} {out : Pattern Query}
    (ht : schemaPattern t = .ok p) (h : p.joined.translate (Program.compiled c) = .ok out) :
    Groups c t out := by
  obtain ⟨definitions, hdefinitions, ht⟩ := bind_eq_ok_iff.1 ht
  obtain ⟨rules, hrules, ht⟩ := bind_eq_ok_iff.1 ht
  cases ht
  obtain ⟨definitions', hdefinitions', h⟩ := bind_eq_ok_iff.1 h
  obtain ⟨rules', hrules', h⟩ := bind_eq_ok_iff.1 h
  cases h
  have hjoined : rules.mapM (fun r => r.joined.translate (Program.compiled c)) = .ok rules' := by
    rw [← hrules', Program.Pattern.joined, List.mapM_map]
    rfl
  exact ⟨rfl, rfl, forall₂_of_mapM (fun _ _ _ => defines_of_translate) hdefinitions hdefinitions',
    forall₂_of_mapM (fun _ _ _ => rules_of_translate) hrules hjoined⟩

theorem binds_of_schemaNamespace {t : Tree} {n : String × String}
    (h : schemaNamespace t = .ok n) : Binds t n := by
  obtain ⟨label, hlabel, h⟩ := bind_eq_ok_iff.1 h
  obtain ⟨value, hvalue, h⟩ := bind_eq_ok_iff.1 h
  cases h
  exact ⟨demand_eq_ok_iff.1 hlabel, demand_eq_ok_iff.1 hvalue⟩

/-! ### The whole program -/

/-- The program of a schema, with its variables read in one go. -/
theorem programOf_eq (t : Tree) (dialect : Dialect) (parameters : Parameters) :
    programOf t dialect parameters = (do
      let phase ← choosePhase t parameters
      let namespaces ← (parts t "ns").mapM schemaNamespace
      let definitions ← (parts t "let" ++ phase.lets).mapM schemaDefinition
      let patterns ← (activePatterns t phase).mapM schemaPattern
      .ok ⟨dialect, phase.name, titleOf t, namespaces, definitions, patterns⟩) := by
  unfold programOf
  refine bind_congr_ok fun phase _ => bind_congr_ok fun namespaces _ => ?_
  rw [List.mapM_append, bind_assoc]
  refine bind_congr_ok fun own _ => ?_
  unfold PhaseChoice.lets
  rcases phase.declaration with _ | declaration
  · rfl
  · rw [bind_assoc]
    rfl

/-- What comes of a schema when it is compiled and the program is bound. -/
theorem programOf_agrees {t : Tree} {dialect : Dialect} {parameters : Parameters}
    {text : Program String} {p : Program Query} (ht : programOf t dialect parameters = .ok text)
    (h : text.joined.translate Program.compiled = .ok p) :
    ∃ phase, choosePhase t parameters = .ok phase ∧ Agrees t phase dialect p := by
  rw [programOf_eq] at ht
  obtain ⟨phase, hphase, ht⟩ := bind_eq_ok_iff.1 ht
  obtain ⟨namespaces, hnamespaces, ht⟩ := bind_eq_ok_iff.1 ht
  obtain ⟨definitions, hdefinitions, ht⟩ := bind_eq_ok_iff.1 ht
  obtain ⟨patterns, hpatterns, ht⟩ := bind_eq_ok_iff.1 ht
  cases ht
  obtain ⟨definitions', hdefinitions', h⟩ := bind_eq_ok_iff.1 h
  obtain ⟨patterns', hpatterns', h⟩ := bind_eq_ok_iff.1 h
  cases h
  rw [Program.joined, List.mapM_map] at hpatterns'
  exact ⟨phase, hphase, rfl, rfl, rfl,
    (mapM_eq_ok_iff.1 hnamespaces).imp fun _ _ => binds_of_schemaNamespace,
    forall₂_of_mapM (fun _ _ _ => defines_of_translate) hdefinitions hdefinitions',
    forall₂_of_mapM (fun _ _ _ => groups_of_translate) hpatterns hpatterns'⟩

/-- A document that is compiled has a schema element, and becomes the document of its program. -/
theorem compile_eq_ok_iff {dialect : Dialect} {schema a : Document} {parameters : Parameters} :
    compile dialect schema parameters = .ok a ↔ ∃ t text,
      schema.tree.documentElement? = some t ∧ isTerm t "schema" ∧
      programOf t dialect parameters = .ok text ∧ a = Document.ofForest [text.toTree] := by
  unfold compile
  constructor
  · intro h
    split at h
    · next t ht =>
      split at h
      · next hschema =>
        obtain ⟨text, htext, h⟩ := bind_eq_ok_iff.1 h
        cases h
        exact ⟨t, text, ht, hschema, htext, rfl⟩
      · cases h
    · cases h
  · rintro ⟨t, text, ht, hschema, htext, rfl⟩
    rw [ht]
    dsimp only
    rw [if_pos hschema, htext, ok_bind]

/-- A program that a schema was compiled to is bound to what the schema says, or an expression in
it has no meaning. -/
theorem bound_program_agrees_with_schema {dialect : Dialect} {schema : Document}
    {parameters : Parameters} {a : Document} (h : compile dialect schema parameters = .ok a) :
    (∀ e, Program.bind a = .error e → ∃ source cause, e = .expression source cause) ∧
      ∀ p, Program.bind a = .ok p → ∃ t phase, schema.tree.documentElement? = some t ∧
        isTerm t "schema" ∧ choosePhase t parameters = .ok phase ∧ Agrees t phase dialect p := by
  obtain ⟨t, text, ht, hschema, htext, rfl⟩ := compile_eq_ok_iff.1 h
  rw [Program.bind, Program.ofTree_ofForest]
  refine ⟨Program.translate_fails Program.compiled text.joined, fun p hp => ?_⟩
  obtain ⟨phase, hphase, hagrees⟩ := programOf_agrees htext hp
  exact ⟨t, phase, ht, hschema, hphase, hagrees⟩

/-- An element of a schema. -/
def schemaElement (localPart : String) (attributes : List (String × String))
    (content : List Tree) : Tree :=
  .node (.element ⟨⟨some uri, none, localPart⟩,
    attributes.map fun a => Program.given a.1 a.2, []⟩) content

/-- A pattern for prices, with markup and a comment in its message, which names an item and its
currency. -/
def pricePattern : Tree :=
  schemaElement "pattern" [("id", "prices")] [
    schemaElement "title" [] [.node (.text " On  prices ") []],
    schemaElement "rule" [("context", "item")] [
      schemaElement "assert" [("test", "@price"), ("role", "error")] [
        .node (.text "No price for ") [],
        schemaElement "name" [] [],
        schemaElement "emph" [] [.node (.text " in ") [], .node (.comment "now") [],
          .node (.text "the ") []],
        schemaElement "value-of" [("select", "@currency")] []]]]

/-- A schema with a phase that leaves out one of its patterns. -/
def priceSchema : Document :=
  Document.ofForest [schemaElement "schema" [] [
    schemaElement "phase" [("id", "buy")] [
      schemaElement "active" [("pattern", "prices")] []],
    schemaElement "pattern" [("id", "stock")] [],
    pricePattern]]

/-- The program that the schema becomes in the phase. -/
def priceProgram : Program Query where
  dialect := .modern
  phase := "buy"
  title := none
  namespaces := []
  definitions := []
  patterns := [
    { id := some "prices"
      title := some "On prices"
      definitions := []
      rules := [
        { context := ⟨"item", .path .root [Query.Step.anywhere, .mk .child (.name none "item") []]⟩
          notes := ⟨none, none, none⟩
          definitions := []
          checks := [⟨.assertion, ⟨"@price", .path .context [.mk .attr (.name none "price") []]⟩,
            ⟨none, some "error", none⟩,
            [.text "No price for ", .name ⟨".", .path .context [.mk .self .anyNode []]⟩,
              .text " in the ",
              .value ⟨"@currency", .path .context [.mk .attr (.name none "currency") []]⟩]⟩] }] }]

theorem bound_program_agrees_with_price_schema :
    ∃ a t phase, compile .modern priceSchema (.ofList [("phase", .text "buy")]) = .ok a ∧
      Program.bind a = .ok priceProgram ∧ Agrees t phase .modern priceProgram := by
  have hitem : Query.compile "item" (.ofDialect .modern) =
      .ok ⟨"item", .path .context [.mk .child (.name none "item") []]⟩ :=
    Query.compile_eq_ok_iff.2 ⟨[⟨.name none "item", 0⟩, ⟨.eof, 4⟩], rfl, rfl, rfl⟩
  have hprice : Query.compile "@price" (.ofDialect .modern) =
      .ok ⟨"@price", .path .context [.mk .attr (.name none "price") []]⟩ :=
    Query.compile_eq_ok_iff.2 ⟨[⟨.atSign, 0⟩, ⟨.name none "price", 1⟩, ⟨.eof, 6⟩], rfl, rfl, rfl⟩
  have hcurrency : Query.compile "@currency" (.ofDialect .modern) =
      .ok ⟨"@currency", .path .context [.mk .attr (.name none "currency") []]⟩ :=
    Query.compile_eq_ok_iff.2 ⟨[⟨.atSign, 0⟩, ⟨.name none "currency", 1⟩, ⟨.eof, 9⟩], rfl, rfl,
      rfl⟩
  have hdot : Query.compile "." (.ofDialect .modern) =
      .ok ⟨".", .path .context [.mk .self .anyNode []]⟩ :=
    Query.compile_eq_ok_iff.2 ⟨[⟨.dot, 0⟩, ⟨.eof, 1⟩], rfl, rfl, rfl⟩
  let text : Program String := ⟨.modern, "buy", none, [], [], [⟨some "prices", some "On prices", [],
    [⟨"item", ⟨none, none, none⟩, [], [⟨.assertion, "@price", ⟨none, some "error", none⟩,
      [.text "No price for ", .name ".", .text " in ", .text "the ", .value "@currency"]⟩]⟩]⟩]⟩
  have hcompile : compile .modern priceSchema (.ofList [("phase", .text "buy")]) =
      .ok (Document.ofForest [text.toTree]) := rfl
  have hbind : Program.bind (Document.ofForest [text.toTree]) = .ok priceProgram := by
    have hcontext : Query.compilePattern "item" (.ofDialect .modern) = .ok
        ⟨"item", .path .root [Query.Step.anywhere, .mk .child (.name none "item") []]⟩ := by
      rw [Query.compilePattern, hitem]
      rfl
    rw [Program.bind, Program.ofTree_ofForest]
    simp [text, priceProgram, Program.translate, Program.joined, Pattern.joined, Rule.joined,
      Check.joined, MessagePart.joined, MessagePart.behind, Pattern.translate, Rule.translate,
      Check.translate, MessagePart.translate, Program.compiled, Program.readAs, Program.contextOf,
      ok_bind, hcontext, hprice, hcurrency, hdot, pure, Except.pure]
  obtain ⟨t, phase, -, -, -, hagrees⟩ :=
    (bound_program_agrees_with_schema hcompile).2 priceProgram hbind
  exact ⟨_, t, phase, hcompile, hbind, hagrees⟩

end Schema

end MarkupRules
