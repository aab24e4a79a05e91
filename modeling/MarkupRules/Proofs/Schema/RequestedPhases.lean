/-
# The phase that is asked for

A schema is compiled for one phase. A text that is given as the phase is kept: the program bears
it and has just the patterns of that phase, and if the schema does not know the phase nothing is
compiled. Only the empty text and `#DEFAULT` leave the choice to the schema. A number or a truth
value is no text; it leaves the choice to the schema as well, although it is shown like a text.

Key definitions: `Knows`, `patternsIn`, `HasFault`, `InPhase`.

Key theorems: `compile_inPhase`, `requested_phase_is_kept`.
-/
import MarkupRules.Proofs.NamedLists
import MarkupRules.Proofs.Validation.Phases

namespace MarkupRules.Schema

open Markup (Document Tree)
open Program (CheckKind Pattern)

/-! ### The phases of a schema -/

/-- A schema knows the phases that it declares, and the one in which every pattern is active. -/
def Knows (schema : Tree) (name : String) : Prop :=
  name = "#ALL" ∨ ∃ p ∈ parts schema "phase", p.attribute? "id" = some name

/-- The element that declares a phase, the first one where there are more. -/
def declarationOf? (schema : Tree) (name : String) : Option Tree :=
  (parts schema "phase").find? fun p => p.attribute? "id" == some name

/-- Whether a pattern is active in a phase: the declaration of the phase lists it, unless every
pattern is active. -/
def belongsTo (schema : Tree) (name : String) (pattern : Tree) : Bool :=
  name == "#ALL" ||
    (declarationOf? schema name).any fun p => isListed (activeIds p) (pattern.attribute? "id")

/-- The patterns of a phase in order, without the abstract ones. -/
def patternsIn (schema : Tree) (name : String) : List Tree :=
  (parts schema "pattern").filter fun p => !isAbstract p && belongsTo schema name p

/-- The elements that define the variables of a schema and of a phase. -/
def letsIn (schema : Tree) (name : String) : List Tree :=
  parts schema "let" ++
    if name = "#ALL" then [] else (declarationOf? schema name).elim [] fun p => parts p "let"

/-- An element of a program is what a pattern of a schema is compiled to. -/
def CompilesTo (t out : Tree) : Prop :=
  ∃ p, schemaPattern t = .ok p ∧ out = p.joined.toTree

/-- A part of a schema that is needed for a phase cannot be compiled. -/
inductive HasFault (schema : Tree) (name : String) (e : StageError) : Prop
  /-- The declaration of a namespace. -/
  | ofNamespace {t : Tree} : t ∈ parts schema "ns" → schemaNamespace t = .error e →
    HasFault schema name e
  /-- The definition of a variable. -/
  | ofVariable {t : Tree} : t ∈ letsIn schema name → schemaDefinition t = .error e →
    HasFault schema name e
  /-- A pattern of the phase. -/
  | ofPattern {t : Tree} : t ∈ patternsIn schema name → schemaPattern t = .error e →
    HasFault schema name e

/-- What may come of compiling a schema for a phase. -/
inductive InPhase (schema : Tree) (name : String) : Except StageError Document → Prop
  /-- A program that bears the name of the phase and has its patterns. -/
  | program {a : Document} {root : Tree} : Knows schema name → a.tree = .node .document [root] →
    root.isElement Program.uri "program" → root.attribute? "phase" = some name →
    List.Forall₂ CompilesTo (patternsIn schema name) (Program.terms root "pattern") →
    InPhase schema name (.ok a)
  /-- The phase is not known, and named. -/
  | unknown : ¬ Knows schema name → InPhase schema name (.error (.unknownPhase name))
  /-- The phase is known, but a part that is needed for it has a fault, which is told. -/
  | faulty {fault : SchemaFault} : Knows schema name →
    HasFault schema name (.invalidSchema fault) →
    InPhase schema name (.error (.invalidSchema fault))

section

variable {t : Tree} {ps : Parameters} {name : String} (hname : phaseName t ps = name)

include hname

theorem choosePhase_of_not_knows (h : ¬ Knows t name) :
    choosePhase t ps = .error (.unknownPhase name) := by
  obtain ⟨hall, hdeclared⟩ := not_or.1 h
  have hother : name ≠ Program.allPatterns := hall
  have hnone : declarationOf? t name = none := by
    refine List.find?_eq_none.2 fun p hp hid => hdeclared ⟨p, hp, ?_⟩
    rwa [beq_iff_eq] at hid
  rw [choosePhase, hname, if_neg hother, ← declarationOf?, hnone]

/-- The phase that is chosen has its name, its variables and its patterns. -/
theorem choosePhase_of_knows (h : Knows t name) :
    ∃ choice, choosePhase t ps = .ok choice ∧ choice.name = name ∧
      parts t "let" ++ choice.lets = letsIn t name ∧ activePatterns t choice = patternsIn t name := by
  by_cases hall : name = Program.allPatterns
  · subst hall
    refine ⟨⟨_, none⟩, ?_, rfl, rfl, rfl⟩
    rw [choosePhase, hname, if_pos rfl]
    rfl
  · obtain ⟨p, hp, hid⟩ := h.resolve_left hall
    obtain ⟨declaration, hfound⟩ : ∃ declaration, declarationOf? t name = some declaration :=
      Option.isSome_iff_exists.1 (List.find?_isSome.2 ⟨p, hp, by rw [hid, beq_self_eq_true]⟩)
    have hother : name ≠ "#ALL" := hall
    refine ⟨⟨name, some declaration⟩, ?_, rfl, ?_, ?_⟩
    · rw [choosePhase, hname, if_neg hall, ← declarationOf?, hfound]
    · rw [letsIn, if_neg hother, hfound]
      rfl
    · rw [activePatterns, patternsIn]
      refine List.filter_congr fun q _ => ?_
      rw [belongsTo, beq_false_of_ne hother, hfound]
      rfl

end

/-! ### Faults of a schema -/

/-- An error tells of a fault of the schema. -/
def IsFault (e : StageError) : Prop :=
  ∃ fault, e = .invalidSchema fault

theorem demand_fails (t : Tree) (localPart owner : String) :
    FailsOnlyBy IsFault (demand t localPart owner) := by
  unfold demand
  split
  · exact .ok _
  · rintro e ⟨⟩
    exact ⟨_, rfl⟩

theorem schemaDefinition_fails (t : Tree) : FailsOnlyBy IsFault (schemaDefinition t) :=
  .bind (demand_fails _ _ _) fun _ => .bind (demand_fails _ _ _) fun _ => .ok _

mutual

theorem messageParts_fails : ∀ t : Tree, FailsOnlyBy IsFault (messageParts t)
  | .node payload below => by
    unfold messageParts
    dsimp only
    split
    · exact .ok _
    · split
      · exact .bind (demand_fails _ _ _) fun _ => .ok _
      · split
        · exact .ok _
        · exact messagePartsOfAll_fails below
    · exact .ok _

theorem messagePartsOfAll_fails : ∀ ts : List Tree, FailsOnlyBy IsFault (messagePartsOfAll ts)
  | [] => .ok _
  | t :: ts => by
    unfold messagePartsOfAll
    exact .bind (messageParts_fails t) fun _ => .bind (messagePartsOfAll_fails ts) fun _ => .ok _

end

theorem schemaCheck_fails (kind : CheckKind) (t : Tree) :
    FailsOnlyBy IsFault (schemaCheck kind t) :=
  .bind (demand_fails _ _ _) fun _ => .bind (messagePartsOfAll_fails _) fun _ => .ok _

theorem schemaChecks_fails (t : Tree) : FailsOnlyBy IsFault (schemaChecks t) :=
  .mapM (fun c : CheckKind × Tree => schemaCheck_fails c.1 c.2) _

theorem schemaRule_fails (t : Tree) : FailsOnlyBy IsFault (schemaRule t) :=
  .bind (demand_fails _ _ _) fun _ => .bind (.mapM schemaDefinition_fails _) fun _ =>
    .bind (schemaChecks_fails t) fun _ => .ok _

theorem schemaPattern_fails (t : Tree) : FailsOnlyBy IsFault (schemaPattern t) :=
  .bind (.mapM schemaDefinition_fails _) fun _ => .bind (.mapM schemaRule_fails _) fun _ => .ok _

theorem schemaNamespace_fails (t : Tree) : FailsOnlyBy IsFault (schemaNamespace t) :=
  .bind (demand_fails _ _ _) fun _ => .bind (demand_fails _ _ _) fun _ => .ok _

/-! ### Compiling for a phase -/

theorem compile_of_schema {dialect : Dialect} {schema : Document} {t : Tree} {ps : Parameters}
    (hschema : schema.tree.documentElement? = some t) (hterm : isTerm t "schema") :
    compile dialect schema ps = (do
      let program ← programOf t dialect ps
      .ok (Document.ofForest [program.toTree])) := by
  rw [compile, hschema]
  exact if_pos hterm

/-- Once a phase is chosen, only faults of what it needs keep the schema from being compiled, and
its program bears the name of the phase and has its patterns. -/
theorem programOf_of_knows (dialect : Dialect) {t : Tree} {ps : Parameters} {name : String}
    (hname : phaseName t ps = name) (h : Knows t name) :
    FailsOnlyBy (fun e => IsFault e ∧ HasFault t name e) (programOf t dialect ps) ∧
      ∀ p, programOf t dialect ps = .ok p →
        p.phase = name ∧ (patternsIn t name).mapM schemaPattern = .ok p.patterns := by
  obtain ⟨choice, hchoice, hphase, hlets, hactive⟩ := choosePhase_of_knows hname h
  rw [programOf_eq, hchoice, ok_bind, hlets, hactive]
  constructor
  · refine .bind (fun e he => ?_) fun _ => .bind (fun e he => ?_) fun _ =>
      .bind (fun e he => ?_) fun _ => .ok _
    · obtain ⟨n, hn, hfails⟩ := exists_of_mapM_error he
      exact ⟨schemaNamespace_fails n e hfails, .ofNamespace hn hfails⟩
    · obtain ⟨d, hd, hfails⟩ := exists_of_mapM_error he
      exact ⟨schemaDefinition_fails d e hfails, .ofVariable hd hfails⟩
    · obtain ⟨q, hq, hfails⟩ := exists_of_mapM_error he
      exact ⟨schemaPattern_fails q e hfails, .ofPattern hq hfails⟩
  · intro p hp
    obtain ⟨namespaces, -, hp⟩ := bind_eq_ok_iff.1 hp
    obtain ⟨definitions, -, hp⟩ := bind_eq_ok_iff.1 hp
    obtain ⟨patterns, hpatterns, hp⟩ := bind_eq_ok_iff.1 hp
    cases hp
    exact ⟨hphase, hpatterns⟩

/-- A program stands in its document with its phase and its patterns. -/
theorem inPhase_of_program {schema : Tree} {name : String} {p : Program String}
    (hknows : Knows schema name) (hphase : p.phase = name)
    (hpatterns : (patternsIn schema name).mapM schemaPattern = .ok p.patterns) :
    InPhase schema name (.ok (Document.ofForest [p.toTree])) := by
  refine .program hknows (Program.tree_ofForest_toTree p) (Program.isElement_term ..) ?_ ?_
  · rw [Program.attribute?_toTree]
    exact congrArg some hphase
  · have hterms : Program.terms p.joined.toTree "pattern" =
        p.patterns.map fun q => q.joined.toTree := by
      rw [Program.terms_toTree]
      simp [Program.joined, Function.comp_def]
    rw [hterms, List.forall₂_map_right_iff]
    exact (mapM_eq_ok_iff.1 hpatterns).imp fun q out hq => ⟨out, hq, rfl⟩

/-- A schema is compiled for the phase that is chosen, and for no other. -/
theorem compile_inPhase {dialect : Dialect} {schema : Document} {t : Tree} {ps : Parameters}
    {name : String} (hschema : schema.tree.documentElement? = some t)
    (hterm : isTerm t "schema") (hname : phaseName t ps = name) :
    InPhase t name (compile dialect schema ps) := by
  rw [compile_of_schema hschema hterm]
  by_cases hknows : Knows t name
  · obtain ⟨hfails, hprograms⟩ := programOf_of_knows dialect hname hknows
    rcases hprogram : programOf t dialect ps with e | p
    · obtain ⟨⟨fault, rfl⟩, hfault⟩ := hfails e hprogram
      exact .faulty hknows hfault
    · obtain ⟨hphase, hpatterns⟩ := hprograms p hprogram
      exact inPhase_of_program hknows hphase hpatterns
  · -- The phase is chosen before anything else of the schema is read, so no fault comes first.
    rw [programOf, choosePhase_of_not_knows hname hknows]
    exact .unknown hknows

/-- What compiling looks up in the parameters is the phase that is asked for. -/
theorem compile_congr {dialect : Dialect} {schema : Document} {ps qs : Parameters}
    (h : requestedPhase ps = requestedPhase qs) :
    compile dialect schema ps = compile dialect schema qs := by
  have hname (t : Tree) : phaseName t ps = phaseName t qs := by
    rw [phaseName, phaseName, h]
  have hchoice (t : Tree) : choosePhase t ps = choosePhase t qs := by
    rw [choosePhase, choosePhase, hname]
  have hprogram (t : Tree) : programOf t dialect ps = programOf t dialect qs := by
    rw [programOf, programOf, hchoice]
  simp only [compile, hprogram]

/-- A text is shown as it is. -/
theorem display_of_asText? {v : Scalar} {s : String} (h : v.asText? = some s) : v.display = s := by
  cases v <;> cases h
  rfl

/-- A text that is given as the phase of a schema is kept, unless it is empty or `#DEFAULT`. Every
other value is passed over: the schema is compiled as if no phase were given. -/
theorem requested_phase_is_kept {dialect : Dialect} {schema : Document} {t : Tree}
    {ps : Parameters} {v : Scalar} (hschema : schema.tree.documentElement? = some t)
    (hterm : isTerm t "schema") (hgiven : ps.get? Parameters.phaseName = some v) :
    (v.asText?.isSome → v.display ≠ "" → v.display ≠ "#DEFAULT" →
      InPhase t v.display (compile dialect schema ps)) ∧
    (v.asText? = none ∨ v.display = "" ∨ v.display = "#DEFAULT" →
      compile dialect schema ps = compile dialect schema (ps.erase Parameters.phaseName)) := by
  have hphase : Parameters.phase? ps = v.asText? := by
    rw [Parameters.phase?, hgiven]
    rfl
  constructor
  · intro htext hempty hdefault
    obtain ⟨name, hname⟩ := Option.isSome_iff_exists.1 htext
    rw [display_of_asText? hname] at hempty hdefault ⊢
    exact compile_inPhase hschema hterm
      (phaseName_of_phase? (hphase.trans hname) hempty hdefault)
  · intro hpassed
    have hnone : requestedPhase ps = none := by
      rw [requestedPhase, hphase, Option.filter_eq_none_iff]
      intro name hname hasked
      rw [display_of_asText? hname, hname] at hpassed
      rcases hpassed with hnone | rfl | rfl
      · cases hnone
      · simp at hasked
      · simp [defaultPhase] at hasked
    have herased : requestedPhase (ps.erase Parameters.phaseName) = none := by
      rw [requestedPhase, Parameters.phase?, NamedList.get?_erase, if_pos rfl]
      rfl
    exact compile_congr (hnone.trans herased.symm)

/-- A schema with two patterns and a phase for the first one, which is named by a number. -/
def numberedTerm : Tree :=
  schemaElement "schema" [] [
    schemaElement "phase" [("id", "1")] [schemaElement "active" [("pattern", "a")] []],
    schemaElement "pattern" [("id", "a")] [],
    schemaElement "pattern" [("id", "b")] []]

/-- The document of the schema. -/
def numberedSchema : Document :=
  Document.ofForest [numberedTerm]

theorem requested_phase_is_kept_in_numbered_schema :
    (∃ a, compile .legacy numberedSchema (.ofList [("phase", .text "1")]) = .ok a ∧
      InPhase numberedTerm "1" (.ok a)) ∧
    compile .legacy numberedSchema (.ofList [("phase", .text "#DEFAULT")]) =
      compile .legacy numberedSchema .empty := by
  have hkept : InPhase numberedTerm "1"
      (compile .legacy numberedSchema (.ofList [("phase", .text "1")])) :=
    (requested_phase_is_kept (v := .text "1") rfl rfl rfl).1 rfl (by decide) (by decide)
  exact ⟨⟨_, rfl, hkept⟩,
    (requested_phase_is_kept (v := .text "#DEFAULT") rfl rfl rfl).2 (.inr (.inr rfl))⟩

/-- The program of the schema with both of its patterns. -/
def numberedProgram : Program String where
  dialect := .legacy
  phase := "#ALL"
  title := none
  namespaces := []
  definitions := []
  patterns := [⟨some "a", none, [], []⟩, ⟨some "b", none, [], []⟩]

/-- Bare text for the phase may be read as a number, and a number does not ask for the phase that
is named like it: every pattern is active. -/
theorem numbered_phase_is_passed_over :
    (Scalar.ofText "1").display = "1" ∧
      compile .legacy numberedSchema (.ofList [("phase", Scalar.ofText "1")]) =
        .ok (Document.ofForest [numberedProgram.toTree]) ∧
      ¬ InPhase numberedTerm "1" (.ok (Document.ofForest [numberedProgram.toTree])) := by
  have hnumber : Scalar.ofText "1" = .int 1 := rfl
  rw [hnumber]
  refine ⟨rfl, rfl, fun h => ?_⟩
  cases h with
  | program hknows hroot hterm hname hpatterns =>
    rw [Program.tree_ofForest_toTree] at hroot
    cases hroot
    rw [Program.attribute?_toTree] at hname
    exact absurd hname (by decide)

end MarkupRules.Schema
