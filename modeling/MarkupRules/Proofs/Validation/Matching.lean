/-
# The first rule for every node

The matches of all rules are sorted by their places and of several at one place the first is kept.
Sorting is stable, so the first in the sorted list is the first in the list of all matches, and
the rule that is declared first has its matches there first. So what is left is found by going
through all places of the document and asking for each which rule is the first to select it.

Key definitions: `selectedBy`, `ruleFor?`, `handled`.

Key theorems: `find?_keepFirst`, `find?_mergeSort`, `firstMatches_eq`, `firstMatches_eq_handled`.
-/
import MarkupRules.Proofs.Query.NodeSets
import MarkupRules.Proofs.Steps
import MarkupRules.Validation.Run

namespace MarkupRules.Validation

open Markup (Document)
open Markup.Document (root)
open Program (Rule)
open Query (Index IsNodeSet Place Scope places)

/-! ### Matches in order -/

section Matches

variable {α : Type} {p : Place}

/-- Leaving out neighbours at one place leaves the first match at every place. -/
theorem find?_keepFirst : ∀ {before : Option Place} {ms : List (Place × α)}, before ≠ some p →
    (keepFirst before ms).find? (fun m => m.1 = p) = ms.find? fun m => m.1 = p
  | _, [], _ => rfl
  | before, m :: ms, hbefore => by
    rw [keepFirst]
    split
    · next heq =>
      have hmp : m.1 ≠ p := fun hmp => hbefore (hmp ▸ heq)
      rw [find?_keepFirst hbefore, List.find?_cons_of_neg (by simpa using hmp)]
    · rw [List.find?_cons, List.find?_cons]
      by_cases hmp : m.1 = p
      · rw [decide_eq_true hmp]
      · rw [decide_eq_false hmp]
        exact find?_keepFirst (by simpa using hmp)

/-- Sorting leaves the first match at every place the first. -/
theorem find?_mergeSort (ix : Index) (ms : List (Place × α)) :
    (ms.mergeSort fun a b => ix.notAfter a.1 b.1).find? (fun m => m.1 = p) =
      ms.find? fun m => m.1 = p := by
  have hat : (ms.filter fun m => m.1 = p).Pairwise fun a b => ix.notAfter a.1 b.1 := by
    refine List.pairwise_of_forall_mem_list fun a ha b hb => ?_
    have hab : a.1 = b.1 := by
      rw [of_decide_eq_true (List.mem_filter.1 ha).2, of_decide_eq_true (List.mem_filter.1 hb).2]
    exact hab ▸ (ix.notAfter_total a.1 a.1).elim id id
  have hsub : (ms.filter fun m => m.1 = p).Sublist
      (ms.mergeSort fun a b => ix.notAfter a.1 b.1) :=
    List.sublist_mergeSort (fun a b c => ix.notAfter_trans a.1 b.1 c.1)
      (fun a b => by simpa using ix.notAfter_total a.1 b.1) hat List.filter_sublist
  have hlength := ((List.mergeSort_perm ms fun a b => ix.notAfter a.1 b.1).filter
    fun m => m.1 = p).length_eq
  have hsame : (ms.filter fun m => m.1 = p) =
      (ms.mergeSort fun a b => ix.notAfter a.1 b.1).filter fun m => m.1 = p := by
    have hfilter := hsub.filter fun m => decide (m.1 = p)
    rw [List.filter_filter] at hfilter
    simp only [Bool.and_self] at hfilter
    exact hfilter.eq_of_length hlength.symm
  rw [← List.head?_filter, ← List.head?_filter, hsame]

variable {d : Document}

/-- Of matches in order those that are kept are strictly in order. -/
theorem pairwise_keepFirst (h : d.Linked) : ∀ (before : Option Place) {ms : List (Place × α)},
    (∀ m ∈ ms, m.1.IsIn d) → (∀ b, before = some b → b.IsIn d) →
    (before.toList ++ ms.map Prod.fst).Pairwise
      (fun a b => (Index.ofDocument d).notAfter a b) →
    (before.toList ++ (keepFirst before ms).map Prod.fst).Pairwise (Index.ofDocument d).Before
  | before, [], _, _, _ => by
    cases before <;> simp [keepFirst]
  | before, m :: ms, hms, hbefore, hordered => by
    rw [List.forall_mem_cons] at hms
    rw [keepFirst]
    split
    · next heq =>
      refine pairwise_keepFirst h before hms.2 hbefore (hordered.sublist ?_)
      exact (List.sublist_cons_self m.1 _).append_left _
    · next hne =>
      have hrest := pairwise_keepFirst h (some m.1) hms.2
        (fun b hb => Option.some.inj hb ▸ hms.1)
        (hordered.sublist (List.sublist_append_right before.toList _))
      rcases before with _ | b
      · exact hrest
      · have hle := List.rel_of_pairwise_cons hordered List.mem_cons_self
        have hbm : (Index.ofDocument d).Before b m.1 :=
          (Index.before_total h (hbefore b rfl) hms.1 fun heq => hne (heq ▸ rfl)).resolve_right
            (Index.notAfter_iff_not_before.1 hle)
        refine List.pairwise_cons.2 ⟨fun q hq => ?_, hrest⟩
        rcases List.mem_cons.1 hq with rfl | hq
        · exact hbm
        · exact Index.before_trans hbm (List.rel_of_pairwise_cons hrest hq)

/-- The first item of a list with distinct keys that has the key of an item is that item. -/
theorem find?_eq_some_of_nodup : ∀ {ms : List (Place × α)}, (ms.map Prod.fst).Nodup →
    ∀ m ∈ ms, ms.find? (fun x => x.1 = m.1) = some m
  | [], _, m, hm => by simp at hm
  | x :: ms, hnodup, m, hm => by
    obtain ⟨hx, hnodup⟩ := List.nodup_cons.1 hnodup
    rcases List.mem_cons.1 hm with rfl | hm
    · exact List.find?_cons_of_pos (by simp)
    · have hne : x.1 ≠ m.1 := fun heq => hx (heq ▸ List.mem_map_of_mem hm)
      rw [List.find?_cons_of_neg (by simpa using hne), find?_eq_some_of_nodup hnodup m hm]

theorem find?_firstMatches (ix : Index) (ms : List (Place × α)) (p : Place) :
    (firstMatches ix ms).find? (fun m => m.1 = p) = ms.find? fun m => m.1 = p := by
  rw [firstMatches, find?_keepFirst (by simp)]
  exact find?_mergeSort ix ms

theorem mem_map_firstMatches (ix : Index) (ms : List (Place × α)) (p : Place) :
    p ∈ (firstMatches ix ms).map Prod.fst ↔ (ms.find? fun m => m.1 = p).isSome := by
  rw [← find?_firstMatches ix, List.find?_isSome, List.mem_map]
  exact exists_congr fun m => and_congr_right fun _ => decide_eq_true_iff.symm

/-- The places of the first matches are a node-set. -/
theorem isNodeSet_firstMatches (h : d.Linked) {ms : List (Place × α)}
    (hms : ∀ m ∈ ms, m.1.IsIn d) :
    IsNodeSet d ((firstMatches (.ofDocument d) ms).map Prod.fst) := by
  have hin : ∀ p ∈ (firstMatches (.ofDocument d) ms).map Prod.fst, p.IsIn d := by
    intro p hp
    rw [mem_map_firstMatches, List.find?_isSome] at hp
    obtain ⟨m, hm, hmp⟩ := hp
    exact of_decide_eq_true hmp ▸ hms m hm
  refine ⟨hin, Query.pairwise_precedes h hin ?_⟩
  refine pairwise_keepFirst h none (fun m hm => hms m (List.mem_mergeSort.1 hm))
    (by simp) ?_
  rw [Option.toList_none, List.nil_append, List.pairwise_map]
  exact List.pairwise_mergeSort (fun a b c => Index.notAfter_trans _ a.1 b.1 c.1)
    (fun a b => by simpa using Index.notAfter_total _ a.1 b.1) ms

/-- The first matches are found by asking at all places of the document, in their order, for the
first match. -/
theorem firstMatches_eq (h : d.Linked) {ms : List (Place × α)} (hms : ∀ m ∈ ms, m.1.IsIn d) :
    firstMatches (.ofDocument d) ms = (places d).filterMap fun p => ms.find? fun m => m.1 = p := by
  have hset := isNodeSet_firstMatches h hms
  have hkeys : (firstMatches (.ofDocument d) ms).map Prod.fst =
      (places d).filter fun p => (ms.find? fun m => m.1 = p).isSome := by
    refine hset.ext h ((Query.isNodeSet_places h).sublist List.filter_sublist) fun p => ?_
    rw [List.mem_filter, Query.mem_places h, ← mem_map_firstMatches (.ofDocument d)]
    exact (and_iff_right_of_imp (hset.isIn p)).symm
  have hself : ((firstMatches (.ofDocument d) ms).map Prod.fst).filterMap
      (fun p => ms.find? fun m => m.1 = p) = firstMatches (.ofDocument d) ms := by
    rw [List.filterMap_map]
    refine (List.filterMap_congr fun m hm => ?_).trans List.filterMap_some
    exact (find?_firstMatches _ ms m.1).symm.trans (find?_eq_some_of_nodup (hset.nodup h) m hm)
  rw [← hself, hkeys, List.filterMap_filter]
  refine List.filterMap_congr fun p _ => ?_
  split
  · rfl
  · next hnone => exact (Option.not_isSome_iff_eq_none.1 hnone).symm

end Matches

/-! ### Rules in the order of their declaration -/

/-- The nodes that the context of a rule selects from the document node; none if it has no value
or another value. -/
def selectedBy (ix : Index) (scope : Scope) (rule : Rule Query) : List Place :=
  match ix.select rule.context (.node root) scope with
  | .ok ps => ps
  | .error _ => []

/-- The first of some rules, in the order of their declaration, whose context selects a node. -/
def ruleFor? (ix : Index) (scope : Scope) (rules : List (Rule Query)) (p : Place) :
    Option (Rule Query) :=
  rules.find? fun rule => p ∈ selectedBy ix scope rule

/-- The places that rules handle in document order, each with the first rule that selects it. -/
def handled (ix : Index) (scope : Scope) (rules : List (Rule Query)) :
    List (Place × Rule Query) :=
  (places ix.doc).filterMap fun p => (ruleFor? ix scope rules p).map fun rule => (p, rule)

variable {ix : Index} {scope : Scope}

theorem selectedBy_eq {rule : Rule Query} {ps : List Place}
    (h : ix.select rule.context (.node root) scope = .ok ps) : selectedBy ix scope rule = ps := by
  rw [selectedBy, h]

/-- Rules have matches if their contexts select nodes: for every rule the nodes it selects. -/
theorem matchesOf_eq : ∀ {rules : List (Rule Query)},
    (∀ rule ∈ rules, ∃ ps, ix.select rule.context (.node root) scope = .ok ps) →
      matchesOf ix scope rules =
        .ok (rules.flatMap fun rule => (selectedBy ix scope rule).map fun p => (p, rule))
  | [], _ => rfl
  | rule :: rules, hrules => by
    obtain ⟨⟨ps, hps⟩, hrules⟩ := List.forall_mem_cons.1 hrules
    rw [matchesOf, hps, matchesOf_eq hrules, List.flatMap_cons, selectedBy_eq hps]
    rfl

theorem find?_map_pair {α : Type} (p : Place) (a : α) : ∀ ps : List Place,
    (ps.map fun q => (q, a)).find? (fun m => m.1 = p) = if p ∈ ps then some (p, a) else none
  | [] => rfl
  | q :: ps => by
    rw [List.map_cons, List.find?_cons, find?_map_pair p a ps]
    by_cases hq : q = p
    · simp [hq]
    · simp [hq, Ne.symm hq]

/-- The first match at a place is that of the first rule that selects it. -/
theorem find?_matches (p : Place) : ∀ rules : List (Rule Query),
    (rules.flatMap fun rule => (selectedBy ix scope rule).map fun q => (q, rule)).find?
      (fun m => m.1 = p) = (ruleFor? ix scope rules p).map fun rule => (p, rule)
  | [] => rfl
  | rule :: rules => by
    rw [List.flatMap_cons, List.find?_append, find?_map_pair, find?_matches p rules, ruleFor?,
      ruleFor?, List.find?_cons]
    by_cases hp : p ∈ selectedBy ix scope rule <;> simp [hp]

variable {d : Document}

theorem selectedBy_isIn (h : d.Linked) (hscope : scope.Sound d) (rule : Rule Query) :
    ∀ p ∈ selectedBy (.ofDocument d) scope rule, p.IsIn d := by
  rw [selectedBy]
  split
  · next ps hps =>
    obtain ⟨v, hv, hps⟩ := bind_eq_ok_iff.1 hps
    have hsound := Index.eval_sound h hscope _ _ _ v (Query.isIn_root h) hv
    exact (Query.asNodes_isNodeSet hsound hps).isIn
  · simp

/-- The matches that are left of those of all rules are the places that the rules handle. -/
theorem firstMatches_eq_handled (h : d.Linked) (hscope : scope.Sound d)
    (rules : List (Rule Query)) :
    firstMatches (.ofDocument d) (rules.flatMap fun rule =>
      (selectedBy (.ofDocument d) scope rule).map fun p => (p, rule)) =
        handled (.ofDocument d) scope rules := by
  rw [firstMatches_eq h]
  · exact List.filterMap_congr fun p _ => find?_matches p rules
  · intro m hm
    obtain ⟨rule, -, hm⟩ := List.mem_flatMap.1 hm
    obtain ⟨p, hp, rfl⟩ := List.mem_map.1 hm
    exact selectedBy_isIn h hscope rule p hp

end MarkupRules.Validation
