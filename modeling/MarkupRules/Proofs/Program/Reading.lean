/-
# Programs written and read

A program that is kept as a document is read back part by part: what is read is the program with
its expressions given their meaning, one after the other, and with neighbouring texts of a message
joined. Nothing is lost on the way but expressions that have no meaning; so what can go wrong is
only that.

Key definitions: `MessagePart.joined`, `Program.joined`, `Program.translate`.

Key theorems: `ofTree_toTree`, `ofTree_ofForest`.
-/
import MarkupRules.Program.Reader
import MarkupRules.Proofs.Markup.Planted
import MarkupRules.Proofs.Steps

namespace MarkupRules.Program

open Markup (Attribute Document Element Name Tree)
open Markup.Tree (settle settleAll)
open Query (QueryError)

variable {ε : Type}

/-! ### Neighbouring texts -/

/-- A part of a message behind others; text joins a text at their end. -/
def MessagePart.behind (done : List (MessagePart ε)) (part : MessagePart ε) :
    List (MessagePart ε) :=
  match part, done.getLast? with
  | .text s, some (.text t) => done.dropLast ++ [.text (t ++ s)]
  | _, _ => done ++ [part]

/-- The parts of a message with neighbouring texts joined. -/
def MessagePart.joined (parts : List (MessagePart ε)) : List (MessagePart ε) :=
  parts.foldl MessagePart.behind []

/-- A check with the texts of its message joined. -/
def Check.joined (c : Check ε) : Check ε :=
  { c with message := MessagePart.joined c.message }

/-- A rule with the texts of its messages joined. -/
def Rule.joined (r : Rule ε) : Rule ε :=
  { r with checks := r.checks.map Check.joined }

/-- A pattern with the texts of its messages joined. -/
def Pattern.joined (p : Pattern ε) : Pattern ε :=
  { p with rules := p.rules.map Rule.joined }

/-- A program with the texts of its messages joined. -/
def joined (p : Program ε) : Program ε :=
  { p with patterns := p.patterns.map Pattern.joined }

/-! ### Programs in a document -/

theorem settleAll_append (done : List Tree) (ts us : List Tree) :
    settleAll done (ts ++ us) = settleAll (settleAll done ts) us := by
  induction ts generalizing done with
  | nil => rfl
  | cons t ts ih => exact ih _

/-- Trees that stand for themselves wherever they are put stand behind one another. -/
theorem settleAll_map {α : Type} {f g : α → Tree} {xs : List α}
    (h : ∀ x ∈ xs, ∀ done, settle done (f x) = done ++ [g x]) (done : List Tree) :
    settleAll done (xs.map f) = done ++ xs.map g := by
  induction xs generalizing done with
  | nil => simp [settleAll]
  | cons x xs ih =>
    obtain ⟨hx, hxs⟩ := List.forall_mem_cons.1 h
    rw [List.map_cons, List.map_cons, settleAll, hx, ih hxs, List.append_assoc,
      List.singleton_append]

theorem settle_term (localPart : String) (attributes : List Attribute) (content done : List Tree) :
    settle done (term localPart attributes content) =
      done ++ [term localPart attributes (settleAll [] content)] :=
  rfl

theorem settle_part (done : List (MessagePart String)) (part : MessagePart String) :
    settle (done.map MessagePart.toTree) part.toTree =
      (MessagePart.behind done part).map MessagePart.toTree := by
  cases part with
  | value e => simp [MessagePart.behind, MessagePart.toTree, settle_term, settleAll]
  | name e => simp [MessagePart.behind, MessagePart.toTree, settle_term, settleAll]
  | text s =>
    rcases List.eq_nil_or_concat done with rfl | ⟨before, last, rfl⟩
    · rfl
    · have hsettle : ∀ ts : List Tree, settle ts (MessagePart.text s).toTree = Tree.joinText ts s :=
        fun _ => rfl
      rw [hsettle, List.concat_eq_append, List.map_append, List.map_singleton]
      cases last with
      | text t => simp [MessagePart.behind, MessagePart.toTree, Tree.joinText_concat]
      | value e =>
        rw [Tree.joinText_eq_concat (by simp [MessagePart.toTree, term])]
        simp [MessagePart.behind, MessagePart.toTree]
      | name e =>
        rw [Tree.joinText_eq_concat (by simp [MessagePart.toTree, term])]
        simp [MessagePart.behind, MessagePart.toTree]

theorem settleAll_message (parts done : List (MessagePart String)) :
    settleAll (done.map MessagePart.toTree) (parts.map MessagePart.toTree) =
      (parts.foldl MessagePart.behind done).map MessagePart.toTree := by
  induction parts generalizing done with
  | nil => rfl
  | cons part parts ih =>
    rw [List.map_cons, settleAll, settle_part, ih, List.foldl_cons]

theorem settle_check (c : Check String) (done : List Tree) :
    settle done c.toTree = done ++ [c.joined.toTree] := by
  have hmessage := settleAll_message c.message []
  rw [Check.toTree, settle_term, settleAll, settle_term, settleAll]
  rw [List.map_nil] at hmessage
  rw [hmessage]
  rfl

theorem settle_definition (d : Definition String) (done : List Tree) :
    settle done d.toTree = done ++ [d.toTree] :=
  rfl

theorem settle_rule (r : Rule String) (done : List Tree) :
    settle done r.toTree = done ++ [r.joined.toTree] := by
  rw [Rule.toTree, settle_term, settleAll_append,
    settleAll_map fun d _ => settle_definition d, settleAll_map fun c _ => settle_check c]
  simp [Rule.toTree, Rule.joined, Function.comp_def]

theorem settle_pattern (p : Pattern String) (done : List Tree) :
    settle done p.toTree = done ++ [p.joined.toTree] := by
  rw [Pattern.toTree, settle_term, settleAll_append,
    settleAll_map fun d _ => settle_definition d, settleAll_map fun r _ => settle_rule r]
  simp [Pattern.toTree, Pattern.joined, Function.comp_def]

/-- The document of a program is the program with the texts of its messages joined. -/
theorem tree_ofForest_toTree (p : Program String) :
    (Document.ofForest [p.toTree]).tree = .node .document [p.joined.toTree] := by
  rw [Document.tree_ofForest, settleAll, toTree, settle_term, settleAll_append, settleAll_append,
    settleAll_map (f := namespaceTree) (g := namespaceTree) fun _ _ _ => rfl,
    settleAll_map fun d _ => settle_definition d, settleAll_map fun q _ => settle_pattern q]
  simp [settleAll, toTree, joined, Function.comp_def]

/-! ### Attributes and elements as they are read -/

theorem attribute?_term (localPart : String) (attributes : List Attribute) (content : List Tree)
    (name : String) : (term localPart attributes content).attribute? name =
      valueIn attributes name :=
  rfl

theorem isElement_term (localPart : String) (attributes : List Attribute) (content : List Tree)
    (name : String) : (term localPart attributes content).isElement uri name =
      (localPart == name) := by
  simp [term, Tree.isElement, Tree.element?, Tree.payload, Name.isIn]

theorem terms_eq (t : Tree) (localPart : String) :
    terms t localPart = t.children.filter fun c => c.isElement uri localPart := by
  rw [terms, Tree.childElements, List.filter_filter]
  refine List.filter_congr fun c _ => ?_
  unfold Tree.isElement
  rcases c.element? with _ | e <;> simp

theorem children_term (localPart : String) (attributes : List Attribute) (content : List Tree) :
    (term localPart attributes content).children = content :=
  rfl

/-- Elements of one kind are all or none of them of a given kind. -/
theorem filter_terms {α : Type} {f : α → Tree} {localPart : String}
    (hf : ∀ x name, (f x).isElement uri name = (localPart == name)) (xs : List α)
    (name : String) :
    (xs.map f).filter (fun c => c.isElement uri name) =
      if localPart = name then xs.map f else [] := by
  by_cases h : localPart = name
  · simp [h, hf, List.filter_map, Function.comp_def]
  · simp [h, hf, List.filter_map, Function.comp_def]

theorem isElement_definition (d : Definition String) (name : String) :
    d.toTree.isElement uri name = ("variable" == name) :=
  isElement_term ..

theorem isElement_rule (r : Rule String) (name : String) :
    r.toTree.isElement uri name = ("rule" == name) :=
  isElement_term ..

theorem isElement_pattern (p : Pattern String) (name : String) :
    p.toTree.isElement uri name = ("pattern" == name) :=
  isElement_term ..

theorem isElement_namespace (n : String × String) (name : String) :
    (namespaceTree n).isElement uri name = ("namespace" == name) :=
  isElement_term ..

theorem isElement_check (c : Check String) (name : String) :
    c.toTree.isElement uri name = (c.kind.label == name) :=
  isElement_term ..

/-! ### What is read -/

section

variable (reading : Reading ε)

/-- A definition with its expression read. -/
def Definition.translate (d : Definition String) : Except ProgramError (Definition ε) := do
  let value ← readAs reading.expression d.value
  .ok ⟨d.name, value⟩

/-- A part of a message with its expression read. -/
def MessagePart.translate : MessagePart String → Except ProgramError (MessagePart ε)
  | .text content => .ok (.text content)
  | .value source => do
    let e ← readAs reading.expression source
    .ok (.value e)
  | .name source => do
    let e ← readAs reading.expression source
    .ok (.name e)

/-- A check with its expressions read, those of the message first. -/
def Check.translate (c : Check String) : Except ProgramError (Check ε) := do
  let message ← c.message.mapM (MessagePart.translate reading)
  let test ← readAs reading.expression c.test
  .ok ⟨c.kind, test, c.notes, message⟩

/-- A rule with its expressions read, those of the checks first. -/
def Rule.translate (r : Rule String) : Except ProgramError (Rule ε) := do
  let checks ← r.checks.mapM (Check.translate reading)
  let context ← readAs reading.context r.context
  let definitions ← r.definitions.mapM (Definition.translate reading)
  .ok ⟨context, r.notes, definitions, checks⟩

/-- A pattern with its expressions read. -/
def Pattern.translate (p : Pattern String) : Except ProgramError (Pattern ε) := do
  let definitions ← p.definitions.mapM (Definition.translate reading)
  let rules ← p.rules.mapM (Rule.translate reading)
  .ok ⟨p.id, p.title, definitions, rules⟩

theorem readDefinition_toTree (d : Definition String) :
    readDefinition reading d.toTree = d.translate reading := by
  simp [readDefinition, required, Definition.toTree, attribute?_term, valueIn_given,
    Definition.translate, ok_bind]

theorem readPart_toTree (part : MessagePart String) :
    readPart reading part.toTree = (part.translate reading).map some := by
  cases part with
  | text s => rfl
  | value source =>
    have hpayload : (MessagePart.value source).toTree.payload =
        .element ⟨⟨some uri, none, "value-of"⟩, [given "select" source], []⟩ := rfl
    rw [readPart, hpayload]
    simp [MessagePart.toTree, isElement_term, required, attribute?_term, valueIn_given, ok_bind,
      MessagePart.translate]
    rcases readAs reading.expression source with _ | e <;> rfl
  | name source =>
    have hpayload : (MessagePart.name source).toTree.payload =
        .element ⟨⟨some uri, none, "name"⟩, [given "path" source], []⟩ := rfl
    rw [readPart, hpayload]
    simp [MessagePart.toTree, isElement_term, attribute?_term, valueIn_given,
      MessagePart.translate]
    rcases readAs reading.expression source with _ | e <;> rfl

/-- Where every item is read as something, nothing is left out. -/
theorem mapM_some {α β κ : Type} (f : α → Except κ β) (xs : List α) :
    ((xs.mapM fun x => (f x).map some) >>= fun ys => .ok (ys.filterMap id)) = xs.mapM f := by
  induction xs with
  | nil => rfl
  | cons x xs ih =>
    rw [List.mapM_cons, List.mapM_cons, ← ih]
    rcases f x with _ | y
    · rfl
    · rcases xs.mapM fun x => (f x).map some with _ | ys <;> rfl

theorem readMessage_toTree (c : Check String) :
    readMessage reading c.toTree = c.message.mapM (MessagePart.translate reading) := by
  have hmessage : terms c.toTree "message" =
      [term "message" [] (c.message.map MessagePart.toTree)] := by
    rw [terms_eq, Check.toTree, children_term]
    simp [isElement_term]
  rw [readMessage, hmessage]
  dsimp only [List.head?_cons]
  have hparts : readPart reading ∘ MessagePart.toTree =
      fun part => (part.translate reading).map some := funext (readPart_toTree reading)
  rw [children_term, List.mapM_map, hparts]
  exact mapM_some (MessagePart.translate reading) c.message

theorem attribute?_check (c : Check String) (name : String) :
    c.toTree.attribute? name = if "test" = name then some c.test
      else valueIn c.notes.toAttributes name := by
  rw [Check.toTree, attribute?_term, valueIn_given]

theorem readCheck_toTree (c : Check String) :
    readCheck reading c.kind c.toTree = c.translate reading := by
  have hnotes : readNotes c.toTree = c.notes := by
    simp [readNotes, attribute?_check, valueIn_notes]
  rw [readCheck, readMessage_toTree, hnotes]
  simp [required, attribute?_check, Check.translate, ok_bind]

theorem checkKind?_toTree (c : Check String) : checkKind? c.toTree = some c.kind := by
  rw [checkKind?, isElement_check, isElement_check]
  cases c.kind <;> rfl

theorem checkKind?_definition (d : Definition String) : checkKind? d.toTree = none := by
  rw [checkKind?, isElement_definition, isElement_definition]
  rfl

theorem readChecks_toTree (r : Rule String) :
    readChecks reading r.toTree = r.checks.mapM (Check.translate reading) := by
  have hchecks : (r.toTree.childElements.filterMap fun c =>
      (checkKind? c).map fun kind => (kind, c)) = r.checks.map fun c => (c.kind, c.toTree) := by
    have helements : r.toTree.childElements = r.toTree.children := by
      refine List.filter_eq_self.2 fun c hc => ?_
      rcases List.mem_append.1 hc with hc | hc
      · obtain ⟨d, -, rfl⟩ := List.mem_map.1 hc
        rfl
      · obtain ⟨k, -, rfl⟩ := List.mem_map.1 hc
        rfl
    rw [helements, Rule.toTree, children_term, List.filterMap_append, List.filterMap_map,
      List.filterMap_map]
    simp [checkKind?_definition, checkKind?_toTree]
  rw [readChecks, hchecks, List.mapM_map]
  simp only [Function.comp_def, readCheck_toTree]

theorem readRule_toTree (r : Rule String) : readRule reading r.toTree = r.translate reading := by
  have hnotes : readNotes r.toTree = r.notes := by
    simp [readNotes, Rule.toTree, attribute?_term, valueIn_given, valueIn_notes]
  have hcontext : required r.toTree "context" = .ok r.context := by
    simp [required, Rule.toTree, attribute?_term, valueIn_given]
  have hdefinitions : terms r.toTree "variable" = r.definitions.map Definition.toTree := by
    have hchecks : (r.checks.map Check.toTree).filter (fun c => c.isElement uri "variable") =
        [] := by
      refine List.filter_eq_nil_iff.2 fun t ht => ?_
      obtain ⟨c, -, rfl⟩ := List.mem_map.1 ht
      rw [isElement_check]
      cases c.kind <;> decide
    rw [terms_eq, Rule.toTree, children_term, List.filter_append,
      filter_terms isElement_definition, hchecks]
    simp
  rw [readRule, hcontext, ok_bind, readChecks_toTree, hnotes, readDefinitions, hdefinitions,
    List.mapM_map]
  simp only [Function.comp_def, readDefinition_toTree]
  rfl

theorem readPattern_toTree (p : Pattern String) :
    readPattern reading p.toTree = p.translate reading := by
  have hdefinitions : terms p.toTree "variable" = p.definitions.map Definition.toTree := by
    rw [terms_eq, Pattern.toTree, children_term, List.filter_append,
      filter_terms isElement_definition, filter_terms isElement_rule]
    simp
  have hrules : terms p.toTree "rule" = p.rules.map Rule.toTree := by
    rw [terms_eq, Pattern.toTree, children_term, List.filter_append,
      filter_terms isElement_definition, filter_terms isElement_rule]
    simp
  have hattributes (name : String) : p.toTree.attribute? name =
      (if "id" = name then p.id else none).or (if "name" = name then p.title else none) := by
    rw [Pattern.toTree, attribute?_term, valueIn_append, valueIn_optional, valueIn_optional]
  rw [readPattern, readDefinitions, hdefinitions, hrules, List.mapM_map, List.mapM_map,
    hattributes, hattributes]
  simp only [Function.comp_def, readDefinition_toTree, readRule_toTree]
  simp [Pattern.translate]

theorem readNamespace_toTree (n : String × String) : readNamespace (namespaceTree n) = .ok n := by
  simp [readNamespace, required, namespaceTree, attribute?_term, valueIn_given, ok_bind]

/-- The elements of one kind in the element of a program. -/
theorem terms_toTree (p : Program String) (name : String) : terms p.toTree name =
    (if "namespace" = name then p.namespaces.map namespaceTree else []) ++
    (if "variable" = name then p.definitions.map Definition.toTree else []) ++
    (if "pattern" = name then p.patterns.map Pattern.toTree else []) := by
  rw [terms_eq, toTree, children_term, List.filter_append, List.filter_append,
    filter_terms isElement_namespace, filter_terms isElement_definition,
    filter_terms isElement_pattern]

theorem attribute?_toTree (p : Program String) (name : String) : p.toTree.attribute? name =
    if "dialect" = name then some p.dialect.token
    else if "phase" = name then some p.phase
    else if "title" = name then p.title else none := by
  rw [toTree, attribute?_term, List.cons_append, List.cons_append, List.nil_append,
    valueIn_given, valueIn_given, valueIn_optional]

theorem ofBinding_token (d : Dialect) : Dialect.ofBinding d.token = .ok d := by
  cases d <;> decide +kernel

end

/-- A program with its expressions read in its own context. -/
def translate (reading : Query.Context → Reading ε) (p : Program String) :
    Except ProgramError (Program ε) := do
  let r := reading (contextOf p.dialect p.namespaces)
  let definitions ← p.definitions.mapM (Definition.translate r)
  let patterns ← p.patterns.mapM (Pattern.translate r)
  .ok ⟨p.dialect, p.phase, p.title, p.namespaces, definitions, patterns⟩

/-- What is read from the element of a program is the program with its expressions read. -/
theorem ofTree_toTree (reading : Query.Context → Reading ε) (p : Program String) :
    ofTree reading (Markup.Tree.node .document [p.toTree]) = p.translate reading := by
  have hroot : (Markup.Tree.node .document [p.toTree]).documentElement? = some p.toTree := rfl
  have hdialect : readDialect p.toTree = .ok p.dialect := by
    rw [readDialect, attribute?_toTree]
    simp [Schema.dialectOf, ofBinding_token]
  have hnamespaces : (terms p.toTree "namespace").mapM readNamespace = .ok p.namespaces := by
    rw [terms_toTree, mapM_eq_ok_iff]
    simp [readNamespace_toTree, List.forall₂_same]
  rw [ofTree, hroot]
  dsimp only
  rw [toTree, isElement_term, if_pos (by rfl), ← toTree, hdialect, ok_bind, hnamespaces, ok_bind,
    readDefinitions, terms_toTree, terms_toTree, attribute?_toTree, attribute?_toTree]
  simp [translate, List.mapM_map, Function.comp_def, readDefinition_toTree, readPattern_toTree]

/-- What is read from the document of a program is the program with its expressions read and the
texts of its messages joined. -/
theorem ofTree_ofForest (reading : Query.Context → Reading ε) (p : Program String) :
    ofTree reading (Document.ofForest [p.toTree]).tree = p.joined.translate reading := by
  rw [tree_ofForest_toTree, ofTree_toTree]

end MarkupRules.Program
