/-
# Locations lead back

The location of a node is a path from the document node, one step for each node on the way. Each
step names what it leads to and counts it among the siblings that are named alike, so among what
the name selects exactly the node is at that position; and a place is reached by the steps of its
parent and its own step. No step can be read in another way: behind a slash a word is a name, also
one that is an operator or an axis elsewhere.

Numbers are doubles, and a position is written with its digits. That the digits select the position
and no other one is a hypothesis on them, which holds of all positions below `2 ^ 53`.

Key definitions: `Tellable`, `AllTellable`, `LeadsTo`.

Key theorems: `keep_number`, `stepFrom_stepOf`, `stepFrom_attributeStep`, `LeadsTo.step`,
`location_selects`.
-/
import MarkupRules.Proofs.Decimal.Positions
import MarkupRules.Proofs.Markup.Rooted
import MarkupRules.Proofs.Markup.Scopes
import MarkupRules.Proofs.Query.Axes
import MarkupRules.Proofs.Query.Lexemes
import MarkupRules.Proofs.Query.Patterns
import MarkupRules.Validation.Location

namespace MarkupRules.Validation

open Decimal (TellsPositions)
open Markup (Attribute Built Document Element Name NodeId Payload expandedNames)
open Markup.Document (root)
open Query

/-! ### Names and kinds in expressions -/

/-- A name that can be told in expressions: its parts are words, and it has neither namespace nor
label, or a label that is bound to its namespace. -/
structure Tellable (context : Context) (name : Name) : Prop where
  /-- The local part is a word. -/
  localPart : IsWord name.localPart
  /-- The label is a word. -/
  label : ∀ l ∈ name.label, IsWord l
  /-- The label stands for the namespace. -/
  bound : name.uri = none ∧ name.label = none ∨
    ∃ l u, name.label = some l ∧ name.uri = some u ∧ context.resolve l = .ok u

/-- The tokens of a test for nodes of a kind. -/
def testTokens : Payload → List Token
  | .element e => [.name e.name.label e.name.localPart]
  | .text _ => [.name none "text", .leftParen, .rightParen]
  | .comment _ => [.name none "comment", .leftParen, .rightParen]
  | .instruction _ _ => [.name none "processing-instruction", .leftParen, .rightParen]
  | .document => []

/-- A test for nodes of a kind. -/
def testOf : Payload → NodeTest
  | .element e => .name e.name.uri e.name.localPart
  | .text _ => .text
  | .comment _ => .comment
  | .instruction _ _ => .instruction none
  | .document => .anyNode

section Names

variable {context : Context}

theorem writesTest_name {name : Name} (h : Tellable context name) :
    WritesTest context [.name name.label name.localPart] (.name name.uri name.localPart) := by
  rcases h.bound with ⟨huri, hlabel⟩ | ⟨l, u, hlabel, huri, hbound⟩
  · rw [huri, hlabel]
    exact .name h.localPart.ne_asterisk
  · rw [huri, hlabel]
    exact .nameIn (Context.resolve_eq_ok_iff.1 hbound) h.localPart.ne_asterisk

theorem writesTest_testOf {x : Payload} (hx : x ≠ .document)
    (htell : ∀ e, x = .element e → Tellable context e.name) :
    WritesTest context (testTokens x) (testOf x) := by
  cases x with
  | document => exact absurd rfl hx
  | element e => exact writesTest_name (htell e rfl)
  | text s => exact .text
  | comment s => exact .comment
  | instruction target content => exact .instruction

variable {rest : List Char} {ts : List Token}

theorem lexes_written {name : Name} (h : Tellable context name) (hends : EndsName rest)
    (hrest : Lexes true rest ts) :
    Lexes false (name.written.toList ++ rest) (.name name.label name.localPart :: ts) := by
  unfold Name.written
  rcases hlabel : name.label with _ | l
  · exact lexes_word h.localPart hends hrest
  · have hl : IsWord l := h.label l hlabel
    simpa using lexes_labelled hl h.localPart hends hrest

/-- A word with a pair of parentheses behind it. -/
theorem lexes_kind {s : String} (hs : IsWord s) (hrest : Lexes true rest ts) :
    Lexes false ((s ++ "()").toList ++ rest)
      (.name none s :: .leftParen :: .rightParen :: ts) := by
  have hpair : (s ++ "()").toList ++ rest = s.toList ++ '(' :: ')' :: rest := by simp
  rw [hpair]
  exact lexes_word hs (endsName_cons (by decide) _)
    (.sign (by decide) rfl (by decide) (.sign (by decide) rfl (by decide) hrest))

theorem lexes_stepLabel {x : Payload} (hx : x ≠ .document)
    (htell : ∀ e, x = .element e → Tellable context e.name) (hends : EndsName rest)
    (hrest : Lexes true rest ts) :
    Lexes false ((stepLabel x).toList ++ rest) (testTokens x ++ ts) := by
  cases x with
  | document => exact absurd rfl hx
  | element e => exact lexes_written (htell e rfl) hends hrest
  | text s => exact lexes_kind (s := "text") ⟨by decide, by decide⟩ hrest
  | comment s => exact lexes_kind (s := "comment") ⟨by decide, by decide⟩ hrest
  | instruction target content =>
    exact lexes_kind (s := "processing-instruction") ⟨by decide, by decide⟩ hrest

/-- A position in brackets. -/
def positionTokens (k : Nat) : List Token :=
  [.leftBracket, .number (toString k), .rightBracket]

theorem lexes_position (k : Nat) (hrest : Lexes true rest ts) {operatorAllowed : Bool} :
    Lexes operatorAllowed ('[' :: ((toString k).toList ++ ']' :: rest))
      (positionTokens k ++ ts) := by
  have hclose : Lexes true (']' :: rest) (.rightBracket :: ts) :=
    .sign (by decide) rfl (by decide) hrest
  have hends : ∀ c ∈ (']' :: rest).head?, c.isDigit = false ∧ c ≠ '.' := by
    intro c hc
    cases hc
    decide
  have hnumber : Lexes false _ _ := lexes_number k hends hclose
  exact .sign (by decide) rfl (by decide) hnumber

theorem writesPredicates_position (k depth : Nat) :
    WritesPredicates (Writes context (depth + 1)) (positionTokens k)
      [.number (Token.numberValue (toString k))] := by
  have hnumber : Writes context (depth + 1) [.number (toString k)]
      (.number (Token.numberValue (toString k))) :=
    .one (.one (.one (.one (.one (.one (.plain (.one (.bare (.bare (.number _))))))))))
  exact .more hnumber .none

end Names

/-! ### Steps -/

section Steps

variable {d : Document} {parent n : NodeId} {scope : Scope} {levels : Nat}

/-- A number as a predicate keeps the place at the position that it names. -/
theorem keep_number {ix : Index} {x : Float} {size : Nat} : ∀ {k position : Nat} {ps : List Place},
    (∀ i < ps.length, (x == Decimal.ofNat (position + i)) ↔ i = k) →
      keep (ix.eval (levels + 1)) scope (.number x) size position ps = .ok ps[k]?.toList
  | _, _, [], _ => rfl
  | k, position, p :: ps, hx => by
    have hhead : holdsAt ⟨p, position, size⟩ (.number x) ↔ 0 = k := hx 0 (Nat.succ_pos _)
    have htail : ∀ i < ps.length, (x == Decimal.ofNat (position + 1 + i)) ↔ i + 1 = k := by
      intro i hi
      rw [Nat.add_right_comm, Nat.add_assoc]
      exact hx (i + 1) (Nat.succ_lt_succ hi)
    have hvalue : ix.eval (levels + 1) (.number x) ⟨p, position, size⟩ scope =
        .ok (.number x) := rfl
    rw [keep, hvalue, ok_bind]
    cases k with
    | zero =>
      have hnone : ∀ i < ps.length, (x == Decimal.ofNat (position + 1 + i)) ↔ i = ps.length :=
        fun i hi => (htail i hi).trans (by omega)
      rw [keep_number hnone, ok_bind, List.getElem?_eq_none (Nat.le_refl _), hhead.2 rfl]
      rfl
    | succ k =>
      have hat : ∀ i < ps.length, (x == Decimal.ofNat (position + 1 + i)) ↔ i = k :=
        fun i hi => (htail i hi).trans Nat.succ_inj
      have hhead : ¬ holdsAt ⟨p, position, size⟩ (.number x) := fun h => by cases hhead.1 h
      rw [keep_number hat, ok_bind, if_neg hhead, List.getElem?_cons_succ]

/-- The children of a node that are counted together with one of them. -/
def alike (d : Document) (parent n : NodeId) : List NodeId :=
  (d.children parent).filter fun c => sameKind (d.payload n) (d.payload c)

/-- Among the children that are counted together, a node stands where its number says. -/
theorem alike_getElem? (h : d.Linked) (hp : d.Over parent n) :
    ∃ k, siblingNumber d parent n = k + 1 ∧ (alike d parent n)[k]? = some n := by
  obtain ⟨before, after, hcs⟩ := List.append_of_mem (h.mem_children_iff.2 hp)
  have hbefore : n ∉ before := by
    have hasc := h.ascending parent
    rw [hcs, List.pairwise_append] at hasc
    exact fun hn => Nat.lt_irrefl n (hasc.2.2 n hn n List.mem_cons_self)
  have hself : sameKind (d.payload n) (d.payload n) = true := by
    cases d.payload n <;> simp [sameKind, Name.same]
  refine ⟨(before.filter fun c => sameKind (d.payload n) (d.payload c)).length, ?_, ?_⟩
  · rw [siblingNumber, countBefore_eq, hcs, Index.takeWhile_ne_append hbefore, Nat.add_comm]
  · rw [alike, hcs, List.filter_append, List.filter_cons, if_pos hself,
      List.getElem?_append_right (Nat.le_refl _), Nat.sub_self, List.getElem?_cons_zero]

/-- A test passes the nodes that are counted together with one of its kind. -/
theorem passes_testOf {x : Payload} (hx : x ≠ .document) (c : NodeId) :
    (Index.ofDocument d).passes .child (testOf x) (.node c) = sameKind x (d.payload c) := by
  have hdoc : (Index.ofDocument d).doc = d := rfl
  cases x with
  | document => exact absurd rfl hx
  | element e =>
    rcases hc : d.payload c <;>
      simp [Index.passes, testOf, Index.principalName?, hdoc, Document.name?, Document.element?, hc,
        sameKind, Name.same, BEq.comm]
  | text s => rcases hc : d.payload c <;> simp [Index.passes, testOf, hdoc, hc, sameKind]
  | comment s => rcases hc : d.payload c <;> simp [Index.passes, testOf, hdoc, hc, sameKind]
  | instruction target content =>
    rcases hc : d.payload c <;> simp [Index.passes, testOf, hdoc, hc, sameKind]

/-- The step from a node to one of its children. -/
def stepOf (d : Document) (parent n : NodeId) : Step :=
  .mk .child (testOf (d.payload n))
    [.number (Token.numberValue (toString (siblingNumber d parent n)))]

/-- The step to a child selects the child alone. -/
theorem stepFrom_stepOf (h : d.Linked) (hp : d.Over parent n) (hx : d.payload n ≠ .document)
    (hnumbers : TellsPositions (d.children parent).length) :
    (Index.ofDocument d).stepFrom ((Index.ofDocument d).eval (levels + 1)) scope
      (stepOf d parent n) (.node parent) = .ok [.node n] := by
  obtain ⟨k, hnumber, hk⟩ := alike_getElem? h hp
  have hkept : ((Index.ofDocument d).along .child (.node parent)).filter
      ((Index.ofDocument d).passes .child (testOf (d.payload n))) =
        (alike d parent n).map .node := by
    have halong : (Index.ofDocument d).along .child (.node parent) =
        (d.children parent).map .node := rfl
    rw [halong, List.filter_map]
    exact congrArg _ (List.filter_congr fun c _ => passes_testOf hx c)
  have hlength : (alike d parent n).length ≤ (d.children parent).length :=
    List.length_filter_le _ _
  have hlt : k < (alike d parent n).length := (List.getElem?_eq_some_iff.1 hk).1
  have hposition : ∀ i < ((alike d parent n).map Place.node).length,
      (Token.numberValue (toString (siblingNumber d parent n)) == Decimal.ofNat (1 + i)) ↔
        i = k := by
    intro i hi
    rw [List.length_map] at hi
    rw [hnumber, hnumbers (1 + i) (k + 1) (by omega) (by omega) (by omega) (by omega)]
    omega
  have hkeep : keep ((Index.ofDocument d).eval (levels + 1)) scope
      (.number (Token.numberValue (toString (siblingNumber d parent n))))
      ((alike d parent n).map Place.node).length 1 ((alike d parent n).map .node) =
        .ok ((alike d parent n).map Place.node)[k]?.toList := keep_number hposition
  rw [List.getElem?_map, hk] at hkeep
  show keepAll _ scope [_] (((Index.ofDocument d).along .child (.node parent)).filter
    ((Index.ofDocument d).passes .child (testOf (d.payload n)))) = _
  rw [hkept, keepAll, hkeep]
  rfl

/-- The step from an element to one of its attributes. -/
def attributeStep (name : Name) : Step :=
  .mk .attr (.name name.uri name.localPart) []

theorem eq_of_same {attributes : List Attribute} (hone : (expandedNames attributes).Nodup)
    {i j : Nat} {a b : Attribute} (ha : attributes[i]? = some a) (hb : attributes[j]? = some b)
    (hsame : a.name.same b.name = true) : i = j := by
  have hi : i < (expandedNames attributes).length := by
    rw [expandedNames, List.length_map]
    exact (List.getElem?_eq_some_iff.1 ha).1
  have hnames : a.name.uri = b.name.uri ∧ a.name.localPart = b.name.localPart := by
    simpa [Name.same, and_comm] using hsame
  exact (List.getElem?_inj hi hone).1 (by simp [expandedNames, ha, hb, hnames])

/-- The step to an attribute selects the attribute alone if no other one has its name. -/
theorem stepFrom_attributeStep {i : Nat} {a : Attribute} (ha : (d.attributes n)[i]? = some a)
    (hone : (expandedNames (d.attributes n)).Nodup) (sub : Evaluator) :
    (Index.ofDocument d).stepFrom sub scope (attributeStep a.name) (.node n) =
      .ok [.attr n i] := by
  have hi : i < (d.attributes n).length := (List.getElem?_eq_some_iff.1 ha).1
  have hpasses : ∀ j ∈ List.range (d.attributes n).length,
      (Index.ofDocument d).passes .attr (.name a.name.uri a.name.localPart) (.attr n j) =
        (j == i) := by
    intro j hj
    obtain ⟨b, hb⟩ : ∃ b, (d.attributes n)[j]? = some b :=
      ⟨_, List.getElem?_eq_getElem (List.mem_range.1 hj)⟩
    have hname : (Index.ofDocument d).principalName? .attr (.attr n j) = some b.name :=
      congrArg (Option.map Attribute.name) hb
    have hsame : (Index.ofDocument d).passes .attr (.name a.name.uri a.name.localPart)
        (.attr n j) = b.name.same a.name := by
      rw [Index.passes, hname]
      rfl
    rw [hsame, Bool.eq_iff_iff, beq_iff_eq]
    constructor
    · exact eq_of_same hone hb ha
    · rintro rfl
      rw [ha] at hb
      cases hb
      simp [Name.same]
  have halong : (Index.ofDocument d).along .attr (.node n) =
      (List.range (d.attributes n).length).map (.attr n) := rfl
  show Except.ok (((Index.ofDocument d).along .attr (.node n)).filter
    ((Index.ofDocument d).passes .attr (.name a.name.uri a.name.localPart))) = _
  have hfilter : (List.range (d.attributes n).length).filter (fun j =>
      (Index.ofDocument d).passes .attr (.name a.name.uri a.name.localPart) (.attr n j)) = [i] := by
    rw [List.filter_congr hpasses, List.filter_beq,
      List.count_eq_one_of_mem List.nodup_range (List.mem_range.2 hi)]
    rfl
  rw [halong, List.filter_map]
  exact congrArg (fun js => Except.ok (js.map (Place.attr n))) hfilter

end Steps

/-! ### Paths -/

section Paths

variable {context : Context} {nested : Phrase Expr}

/-- Steps of which each has a slash in front. -/
def WritesFromRoot (context : Context) (nested : Phrase Expr) (w : List Token)
    (steps : List Step) : Prop :=
  w = [] ∧ steps = [] ∨ ∃ v, w = .slash :: v ∧ WritesSteps context nested v steps

theorem writesSteps_concat {w v : List Token} {steps : List Step} {s : Step}
    (h : WritesSteps context nested w steps) (hs : WritesStep context nested v s) :
    WritesSteps context nested (w ++ .slash :: v) (steps ++ [s]) := by
  induction h with
  | one hfirst => exact .more hfirst .slash (.one hs)
  | @more w first t between u steps hfirst hleads _ ih =>
    have hmore := WritesSteps.more hfirst hleads ih
    simpa using hmore

theorem WritesFromRoot.concat {w v : List Token} {steps : List Step} {s : Step}
    (h : WritesFromRoot context nested w steps) (hs : WritesStep context nested v s) :
    WritesFromRoot context nested (w ++ .slash :: v) (steps ++ [s]) := by
  rcases h with ⟨rfl, rfl⟩ | ⟨u, rfl, hsteps⟩
  · exact .inr ⟨v, rfl, .one hs⟩
  · exact .inr ⟨u ++ .slash :: v, rfl, writesSteps_concat hsteps hs⟩

end Paths

/-- A text is a path of steps from the document node, with a slash in front of each, that selects
one place. -/
structure LeadsTo (d : Document) (context : Context) (text : String) (tokens : List Token)
    (steps : List Step) (p : Place) : Prop where
  /-- The text has the tokens, whatever goes on behind it. -/
  lexes : ∀ {rest : List Char} {ts : List Token}, EndsName rest → (∀ b, Lexes b rest ts) →
    ∀ b, Lexes b (text.toList ++ rest) (tokens ++ ts)
  /-- The tokens write the steps. -/
  writes : ∀ depth, WritesFromRoot context (Writes context (depth + 1)) tokens steps
  /-- The steps select the place. -/
  selects : ∀ levels scope, (Index.ofDocument d).follow ((Index.ofDocument d).eval (levels + 1))
    scope steps [.node root] = .ok [p]

section Leads

variable {d : Document} {context : Context} {text : String} {tokens : List Token}
  {steps : List Step} {p : Place}

theorem leadsTo_root : LeadsTo d context "" [] [] (.node root) where
  lexes _ hrest := hrest
  writes _ := .inl ⟨rfl, rfl⟩
  selects _ _ := rfl

theorem follow_concat {ix : Index} {sub : Evaluator} {scope : Scope} {s : Step} {q : Place} :
    ∀ {steps : List Step} {ps : List Place}, ix.follow sub scope steps ps = .ok [p] →
      ix.stepFrom sub scope s p = .ok [q] → ix.follow sub scope (steps ++ [s]) ps = .ok [q]
  | [], ps, h, hs => by
    cases h
    show ix.follow sub scope [s] [p] = _
    rw [Index.follow, Index.stepFromAll_singleton, hs, ok_bind]
    rfl
  | t :: steps, ps, h, hs => by
    rw [Index.follow] at h
    obtain ⟨found, hfound, h⟩ := bind_eq_ok_iff.1 h
    rw [List.cons_append, Index.follow, hfound, ok_bind]
    exact follow_concat h hs

/-- One more step. -/
theorem LeadsTo.step (h : LeadsTo d context text tokens steps p) {more : String}
    {v : List Token} {s : Step} {q : Place} {c : Char} {cs : List Char}
    (hmore : more.toList = c :: cs) (hc : c ≠ '/')
    (hlexes : ∀ {rest : List Char} {ts : List Token}, EndsName rest → (∀ b, Lexes b rest ts) →
      Lexes false (more.toList ++ rest) (v ++ ts))
    (hwrites : ∀ depth, WritesStep context (Writes context (depth + 1)) v s)
    (hselects : ∀ levels scope, (Index.ofDocument d).stepFrom
      ((Index.ofDocument d).eval (levels + 1)) scope s p = .ok [q]) :
    LeadsTo d context (text ++ "/" ++ more) (tokens ++ .slash :: v) (steps ++ [s]) q where
  lexes {rest ts} hends hrest b := by
    have hhead : (more.toList ++ rest).head? ≠ some '/' := by
      rw [hmore]
      simpa using hc
    have hslash : ∀ b, Lexes b ('/' :: (more.toList ++ rest)) (.slash :: (v ++ ts)) := fun b =>
      lexes_slash hhead (hlexes hends hrest)
    simpa using h.lexes (endsName_cons (by decide) _) hslash b
  writes depth := (h.writes depth).concat (hwrites depth)
  selects levels scope := follow_concat (h.selects levels scope) (hselects levels scope)

end Leads

/-! ### Locations -/

/-- All names of a document can be told in expressions. -/
structure AllTellable (context : Context) (d : Document) : Prop where
  /-- The names of elements. -/
  elements : ∀ n e, d.element? n = some e → Tellable context e.name
  /-- The names of attributes. -/
  attributes : ∀ n, ∀ a ∈ d.attributes n, Tellable context a.name

section Locations

variable {d : Document} {context : Context}

theorem nodeLocation_root (h : d.Linked) : nodeLocation d root = "" := by
  rw [nodeLocation, Document.Linked.ancestors_eq_nil h.parent_root, stepsTo]

theorem nodeLocation_of_over (h : d.Linked) {parent n : NodeId} (hp : d.Over parent n) :
    nodeLocation d n = nodeLocation d parent ++ "/" ++ stepTo d parent n := by
  rw [nodeLocation, h.ancestors_eq_cons hp, stepsTo, nodeLocation]

theorem stepLabel_starts {x : Payload} (hx : x ≠ .document)
    (htell : ∀ e, x = .element e → Tellable context e.name) :
    ∃ c cs, (stepLabel x).toList = c :: cs ∧ c ≠ '/' := by
  have hstart : ∀ c, isNameStart c = true → c ≠ '/' := by
    rintro c hc rfl
    exact absurd hc (by decide)
  cases x with
  | document => exact absurd rfl hx
  | element e =>
    have he := htell e rfl
    rcases hlabel : e.name.label with _ | l
    · obtain ⟨c, cs, hlist, hc, -⟩ := he.localPart.exists_cons
      exact ⟨c, cs, by simpa [stepLabel, Name.written, hlabel] using hlist, hstart c hc⟩
    · obtain ⟨c, cs, hlist, hc, -⟩ := (he.label l hlabel).exists_cons
      exact ⟨c, cs ++ ':' :: e.name.localPart.toList,
        by simp [stepLabel, Name.written, hlabel, hlist], hstart c hc⟩
  | text s =>
    have hlist : "text()".toList = 't' :: "ext()".toList := by decide
    exact ⟨_, _, hlist, by decide⟩
  | comment s =>
    have hlist : "comment()".toList = 'c' :: "omment()".toList := by decide
    exact ⟨_, _, hlist, by decide⟩
  | instruction target content =>
    have hlist : "processing-instruction()".toList = 'p' :: "rocessing-instruction()".toList := by
      decide
    exact ⟨_, _, hlist, by decide⟩

theorem leadsTo_child (hlinked : d.Linked) (hrooted : d.Rooted) (htell : AllTellable context d)
    (hnumbers : ∀ n, TellsPositions (d.children n).length) {parent n : NodeId}
    (hp : d.Over parent n) {tokens : List Token} {steps : List Step}
    (h : LeadsTo d context (nodeLocation d parent) tokens steps (.node parent)) :
    LeadsTo d context (nodeLocation d parent ++ "/" ++ stepTo d parent n)
      (tokens ++ .slash :: (testTokens (d.payload n) ++ positionTokens (siblingNumber d parent n)))
      (steps ++ [stepOf d parent n]) (.node n) := by
  have hx : d.payload n ≠ .document :=
    hrooted n (Document.lt_size_of_parent? hp) (hlinked.ne_root_of_over hp)
  have hname : ∀ e, d.payload n = .element e → Tellable context e.name := fun e he =>
    htell.elements n e (by rw [Document.element?, he])
  obtain ⟨c, cs, hlabel, hc⟩ := stepLabel_starts hx hname
  have htext : ∀ rest, (stepTo d parent n).toList ++ rest = (stepLabel (d.payload n)).toList ++
      '[' :: ((toString (siblingNumber d parent n)).toList ++ ']' :: rest) := by
    simp [stepTo]
  have hwrites : ∀ depth, WritesStep context (Writes context (depth + 1))
      (testTokens (d.payload n) ++ positionTokens (siblingNumber d parent n))
      (stepOf d parent n) := fun depth =>
    .full .child (writesTest_testOf hx hname) (writesPredicates_position _ depth)
  have hhead : (stepTo d parent n).toList = c :: (cs ++
      '[' :: ((toString (siblingNumber d parent n)).toList ++ [']'])) := by
    rw [← List.append_nil (stepTo d parent n).toList, htext, hlabel, List.cons_append]
  refine h.step hhead hc (fun hends hrest => ?_) hwrites
    fun _ _ => stepFrom_stepOf hlinked hp hx (hnumbers parent)
  rw [htext, List.append_assoc]
  exact lexes_stepLabel hx hname (endsName_cons (by decide) _) (lexes_position _ (hrest true))

theorem leadsTo_node (hlinked : d.Linked) (hrooted : d.Rooted) (htell : AllTellable context d)
    (hnumbers : ∀ n, TellsPositions (d.children n).length) {n : NodeId} (hn : n < d.size) :
    ∃ tokens steps, LeadsTo d context (nodeLocation d n) tokens steps (.node n) := by
  refine hlinked.induction_above (P := fun n => ∃ tokens steps,
    LeadsTo d context (nodeLocation d n) tokens steps (.node n)) ?_ ?_ hn
  · rw [nodeLocation_root hlinked]
    exact ⟨[], [], leadsTo_root⟩
  · rintro parent n hp ⟨tokens, steps, h⟩
    rw [nodeLocation_of_over hlinked hp]
    exact ⟨_, _, leadsTo_child hlinked hrooted htell hnumbers hp h⟩

/-- A path with a step compiles, and from every node it selects its place. -/
theorem LeadsTo.compiled {text : String} {tokens : List Token} {steps : List Step} {p : Place}
    (h : LeadsTo d context text tokens steps p) (hsome : tokens ≠ []) :
    ∃ q, compile text context = .ok q ∧
      ∀ origin scope, (Index.ofDocument d).select q origin scope = .ok [p] := by
  obtain ⟨v, rfl, hsteps⟩ := (h.writes 126).resolve_left fun hnone => hsome hnone.1
  have hlexes : Lexes false text.toList (.slash :: v) := by
    have hall : Lexes false (text.toList ++ []) (.slash :: v ++ []) :=
      h.lexes (by simp [EndsName]) Lexes.nil false
    rwa [List.append_nil, List.append_nil] at hall
  have hpath : Writes context depthLimit (.slash :: v) (.path .root steps) :=
    .one (.one (.one (.one (.one (.one (.plain (.one (.fromRoot .slash hsteps))))))))
  refine ⟨_, compile_of_lexes hlexes hpath, fun origin scope => ?_⟩
  exact (Index.nodesAt_fromRoot depthLimit steps origin).trans (h.selects 127 scope)

/-- The slash alone selects the document node. -/
theorem compiled_root : ∃ q, compile "/" context = .ok q ∧
    ∀ origin scope, (Index.ofDocument d).select q origin scope = .ok [.node root] := by
  have hlexes : Lexes false "/".toList [.slash] := lexes_slash (by simp) (.nil _)
  have hpath : Writes context depthLimit [.slash] (.path .root []) :=
    .one (.one (.one (.one (.one (.one (.plain (.one .root)))))))
  exact ⟨_, compile_of_lexes hlexes hpath, fun origin scope =>
    Index.nodesAt_fromRoot depthLimit [] origin⟩

theorem leadsTo_attribute {n : NodeId} {i : Nat} {a : Attribute} {tokens : List Token}
    {steps : List Step} (h : LeadsTo d context (nodeLocation d n) tokens steps (.node n))
    (ha : (d.attributes n)[i]? = some a) (htell : Tellable context a.name)
    (hone : (expandedNames (d.attributes n)).Nodup) :
    LeadsTo d context (nodeLocation d n ++ "/@" ++ a.name.written)
      (tokens ++ .slash :: .atSign :: [.name a.name.label a.name.localPart])
      (steps ++ [attributeStep a.name]) (.attr n i) := by
  have htext : nodeLocation d n ++ "/@" ++ a.name.written =
      nodeLocation d n ++ "/" ++ ("@" ++ a.name.written) := by
    have hpair : "/@" = "/" ++ "@" := rfl
    rw [hpair, String.append_assoc, String.append_assoc, String.append_assoc]
  have hlist : ("@" ++ a.name.written).toList = '@' :: a.name.written.toList := by simp
  rw [htext]
  refine h.step hlist (by decide) (fun hends hrest => ?_)
    (fun _ => .full .attr (writesTest_name htell) .none)
    fun _ _ => stepFrom_attributeStep ha hone _
  rw [hlist]
  exact .sign (by decide) rfl (by decide) (lexes_written htell hends (hrest true))

/-- From every node of a document that can be built, the location of a node or attribute selects
exactly it, if the names in the document can be told and no two attributes of an element have one
name. -/
theorem location_selects (hbuilt : Built d) (htell : AllTellable context d)
    (hone : ∀ n, (expandedNames (d.attributes n)).Nodup)
    (hnumbers : ∀ n, TellsPositions (d.children n).length) {p : Place} (hp : p.IsIn d) :
    ∃ q, compile (location d p) context = .ok q ∧
      ∀ origin scope, (Index.ofDocument d).select q origin scope = .ok [p] := by
  have hlinked := hbuilt.linked
  have hleads : ∀ n < d.size, ∃ tokens steps,
      LeadsTo d context (nodeLocation d n) tokens steps (.node n) := fun n hn =>
    leadsTo_node hlinked hbuilt.rooted htell hnumbers hn
  cases p with
  | node n =>
    by_cases hroot : n = root
    · have hlocation : location d (.node n) = "/" := by
        rw [location, hroot, nodeLocation_root hlinked]
        rfl
      rw [hlocation, hroot]
      exact compiled_root
    · obtain ⟨parent, hlt, hover⟩ := hlinked.parent_lt n hp hroot
      obtain ⟨tokens, steps, h⟩ := hleads parent (Nat.lt_trans hlt hp)
      have hchild := leadsTo_child hlinked hbuilt.rooted htell hnumbers hover h
      have hlocation : location d (.node n) =
          nodeLocation d parent ++ "/" ++ stepTo d parent n := by
        have hne : nodeLocation d n ≠ "" := by
          simp [nodeLocation_of_over hlinked hover]
        rw [location, if_neg hne, nodeLocation_of_over hlinked hover]
      rw [hlocation]
      exact hchild.compiled (by simp)
  | attr n i =>
    obtain ⟨a, ha⟩ : ∃ a, (d.attributes n)[i]? = some a := ⟨_, List.getElem?_eq_getElem hp⟩
    have hlocation : location d (.attr n i) = nodeLocation d n ++ "/@" ++ a.name.written := by
      rw [location, ha]
    rw [hlocation]
    have hin : a ∈ d.attributes n := List.mem_of_getElem? ha
    obtain ⟨tokens, steps, h⟩ := hleads n hp.owner_lt
    exact (leadsTo_attribute h ha (htell.attributes n a hin) (hone n)).compiled (by simp)

/-- A quotient among the books of the shelf, with a remainder as its attribute: both names are words
that are operators elsewhere, and both have a label. -/
theorem location_selects_on_shelf :
    let quotient : Name := .within "urn:sums" "s" "div"
    let remainder : Name := .within "urn:sums" "s" "mod"
    let d := (Document.shelf.appendElement 1 quotient).1.setAttribute 6 remainder "1"
    let context := (Context.ofDialect .legacy).declare "s" "urn:sums"
    Built d ∧ AllTellable context d ∧ (∀ n, (expandedNames (d.attributes n)).Nodup) ∧
      (∀ n, TellsPositions (d.children n).length) ∧
      location d (.attr 6 0) = "/shelf[1]/s:div[1]/@s:mod" ∧
      ∃ q, compile "/shelf[1]/s:div[1]/@s:mod" context = .ok q ∧
        ∀ origin scope, (Index.ofDocument d).select q origin scope = .ok [.attr 6 0] := by
  intro quotient remainder d context
  have hbuilt : Built d := (Markup.built_shelf.appendElement quotient (by decide)).setAttribute 6 _ _
  have hlabelled : ∀ s, IsWord s → Tellable context (.within "urn:sums" "s" s) := fun s hs =>
    ⟨hs, by simpa [Name.within] using (⟨by decide, by decide⟩ : IsWord "s"),
      .inr ⟨"s", "urn:sums", rfl, rfl, rfl⟩⟩
  have hplain : ∀ s, IsWord s → Tellable context (.plain s) := fun s hs =>
    ⟨hs, by simp [Name.plain], .inl ⟨rfl, rfl⟩⟩
  have htell : AllTellable context d := by
    constructor
    · intro n e he
      match n with
      | 1 => cases he; exact hplain "shelf" ⟨by decide, by decide⟩
      | 2 => cases he; exact hplain "book" ⟨by decide, by decide⟩
      | 5 => cases he; exact hplain "book" ⟨by decide, by decide⟩
      | 6 => cases he; exact hlabelled "div" ⟨by decide, by decide⟩
      | 0 | 3 | 4 | n + 7 => cases he
    · intro n a ha
      match n with
      | 2 => cases List.mem_singleton.1 ha; exact hplain "id" ⟨by decide, by decide⟩
      | 6 => cases List.mem_singleton.1 ha; exact hlabelled "mod" ⟨by decide, by decide⟩
      | 0 | 1 | 3 | 4 | 5 | n + 7 => cases ha
  have hone : ∀ n, (expandedNames (d.attributes n)).Nodup := by
    intro n
    match n with
    | 0 | 1 | 2 | 3 | 4 | 5 | 6 => decide
    | n + 7 => exact List.nodup_nil
  have hnumbers : ∀ n, TellsPositions (d.children n).length := by
    intro n
    have hlength : (d.children n).length ≤ d.size :=
      hbuilt.linked.length_listing_root ▸ (Index.children_sublist hbuilt.linked n).length_le
    exact Decimal.tellsPositions_of_lt (Nat.lt_of_le_of_lt hlength (by decide))
  have hlocation : location d (.attr 6 0) = "/shelf[1]/s:div[1]/@s:mod" := by decide
  refine ⟨hbuilt, htell, hone, hnumbers, hlocation, ?_⟩
  rw [← hlocation]
  exact location_selects hbuilt htell hone hnumbers (p := .attr 6 0) (by decide)

end Locations

end MarkupRules.Validation
