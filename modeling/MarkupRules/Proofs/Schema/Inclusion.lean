/-
# Walks along references

A walk through a document and what its references lead to stands in a forest, and keeps the chain
of what it is following. It goes across a reference to what the reference leads to, down below what
is no reference, and on behind a tree when the tree is resolved. Resolving references with some
number of levels follows the walk; it runs out of levels only where the walk comes to a chain that
is longer by so many. Where it does not, it finds a circle exactly if the walk comes to a reference
that leads to something it is following.

Key definitions: `Frame`, `Walk`, `Walk.Goes`, `Walk.Reaches`, `Walk.LeadsTo`, `Walk.run`.

Key theorems: `run_stable`, `runs_out_or_settles`, `run_circular`, `run_eq_circular_iff`.
-/
import Mathlib.Logic.Relation
import MarkupRules.Proofs.Steps
import MarkupRules.Schema.Inclusion

namespace MarkupRules.Schema

open Markup (Document Payload Tree)

/-! ### Chains -/

/-- What is followed: a document, by its locator, or the element of it that a fragment names. -/
structure Frame where
  /-- The locator of the document. -/
  locator : String
  /-- The fragment that names the element. -/
  fragment : Option String
  deriving DecidableEq

/-- The key under which something is followed. -/
def Frame.key (g : Frame) : String :=
  match g.fragment with
  | some id => g.locator ++ "#" ++ id
  | none => g.locator

/-- What a reference leads to in a document. -/
def frameOf (found : Document) (reference : String) : Frame :=
  ⟨found.origin.getD "", (splitReference reference).2⟩

theorem targetKey_eq (found : Document) (reference : String) :
    targetKey found (splitReference reference).2 = (frameOf found reference).key := by
  unfold targetKey Frame.key frameOf
  rfl

/-- Where a walk stands. -/
structure Walk where
  /-- The document that is walked through. -/
  document : Document
  /-- What is being followed, the innermost first. -/
  chain : List Frame
  /-- The trees to be walked. -/
  forest : List Tree

/-- The keys of what is being followed. -/
def Walk.keys (w : Walk) : List String :=
  w.chain.map Frame.key

/-- The walk through a schema. -/
def Walk.start (schema : Document) : Walk :=
  ⟨schema, schema.origin.toList.map fun origin => ⟨origin, none⟩, [schema.tree]⟩

/-! ### One tree -/

/-- The reference for which something else is put in the place of a tree. -/
def referenceOf? (t : Tree) : Option String :=
  if t.isElement uri "include" || t.isElement uri "extends" then t.attribute? "href" else none

/-- What is put in its place. -/
def replacement (t : Tree) (target : Target) : List Tree :=
  if t.isElement uri "include" then [target.document.subtree target.node]
  else (target.document.subtree target.node).children

/-- The trees below a tree without a reference that are walked. -/
def partsBelow (t : Tree) : List Tree :=
  match t.payload with
  | .document => t.children
  | .element _ => if t.isElement uri "include" then [] else t.children
  | _ => []

/-- A tree without a reference, put together again when the trees below it are resolved. -/
def rebuild (t : Tree) (below : List Tree) : Except StageError (List Tree) :=
  match t.payload with
  | .document => .ok below
  | .element e =>
    if t.isElement uri "include" then .error (.invalidSchema (.missing "sch:include" "href"))
    else .ok [.node (.element e) below]
  | p => .ok [.node p []]

variable {files : Files} {d : Document} {chain : List Frame} {t : Tree} {rest : List Tree}
  {r : String} {levels : Nat}

theorem rebuild_ne_circular {below : List Tree} : rebuild t below ≠ .error (.circular r) := by
  intro h
  unfold rebuild at h
  split at h
  · cases h
  · split at h <;> cases h
  · cases h

section Trees

variable {deeper : Includer} {active : List String}

theorem includeTree_reference (h : referenceOf? t = some r) :
    includeTree files deeper d active t =
      (do
        let target ← locate files d active r
        deeper target.document (target.key :: active) (replacement t target)) := by
  obtain ⟨payload, below⟩ := t
  cases payload with
  | element e =>
    change (if e.name.isIn uri "include" || e.name.isIn uri "extends" then e.attribute? "href"
      else none) = some r at h
    unfold includeTree replacement
    change _ = do
      let target ← locate files d active r
      deeper target.document (target.key :: active)
        (if e.name.isIn uri "include" then [target.document.subtree target.node]
          else (target.document.subtree target.node).children)
    by_cases hinclude : e.name.isIn uri "include"
    · rw [hinclude, Bool.true_or, if_pos rfl] at h
      simp only [hinclude, if_true, h]
    · rw [Bool.eq_false_iff.2 hinclude, Bool.false_or] at h
      simp only [hinclude, h, if_false, Bool.false_eq_true]
  | document => cases h
  | text s => cases h
  | comment s => cases h
  | instruction target content => cases h

theorem includeTree_other (h : referenceOf? t = none) :
    includeTree files deeper d active t =
      includeAll files deeper d active (partsBelow t) >>= rebuild t := by
  obtain ⟨payload, below⟩ := t
  cases payload with
  | document =>
    change includeAll files deeper d active below = includeAll files deeper d active below >>= .ok
    cases includeAll files deeper d active below <;> rfl
  | element e =>
    change (if e.name.isIn uri "include" || e.name.isIn uri "extends" then e.attribute? "href"
      else none) = none at h
    unfold includeTree
    change _ = includeAll files deeper d active (if e.name.isIn uri "include" then [] else below) >>=
      fun below =>
        if e.name.isIn uri "include" then .error (.invalidSchema (.missing "sch:include" "href"))
        else .ok [Markup.Tree.node (.element e) below]
    by_cases hinclude : e.name.isIn uri "include"
    · rw [hinclude, Bool.true_or, if_pos rfl] at h
      simp only [hinclude, if_true, h]
      rfl
    · rw [Bool.eq_false_iff.2 hinclude, Bool.false_or] at h
      simp only [hinclude, h, if_false, Bool.false_eq_true]
  | text s => rfl
  | comment s => rfl
  | instruction target content => rfl

end Trees

theorem sizeOf_partsBelow (t : Tree) : sizeOf (partsBelow t) < sizeOf t := by
  obtain ⟨payload, below⟩ := t
  have hbelow : sizeOf below < sizeOf (Markup.Tree.node payload below) := by
    rw [Markup.Tree.node.sizeOf_spec]
    omega
  have hnil : sizeOf ([] : List Tree) < sizeOf (Markup.Tree.node payload below) := by
    cases payload <;> simp <;> omega
  unfold partsBelow
  split
  · exact hbelow
  · split
    · exact hnil
    · exact hbelow
  · exact hnil

/-- What holds of the empty forest and, if it holds below the first tree and of the others, of a
forest, holds of all forests. -/
theorem forest_induction {P : List Tree → Prop} (nil : P [])
    (cons : ∀ t rest, P (partsBelow t) → P rest → P (t :: rest)) : ∀ forest, P forest
  | [] => nil
  | t :: rest => cons t rest (forest_induction nil cons (partsBelow t))
      (forest_induction nil cons rest)
termination_by forest => sizeOf forest
decreasing_by
  · have hbelow := sizeOf_partsBelow t
    simp only [List.cons.sizeOf_spec]
    omega
  · have hpositive : 0 < sizeOf t := Nat.lt_of_le_of_lt (Nat.zero_le _) (sizeOf_partsBelow t)
    simp only [List.cons.sizeOf_spec]
    omega

/-! ### What references lead to -/

/-- The walk stands before a reference that leads to the given element or document. -/
def Walk.LeadsTo (files : Files) (w : Walk) (r : String) (g : Frame) : Prop :=
  ∃ t rest found, w.forest = t :: rest ∧ referenceOf? t = some r ∧
    openDocument files w.document r (splitReference r).1 = .ok found ∧ g = frameOf found r

/-- The walk stands before a reference that leads to something it is following. -/
def Walk.Repeats (files : Files) (w : Walk) (r : String) : Prop :=
  ∃ g, w.LeadsTo files r g ∧ g.key ∈ w.keys

section Locate

variable {active : List String} {found : Document} {target : Target}

theorem openDocument_ne_circular {reference path : String} :
    openDocument files d reference path ≠ .error (.circular r) := by
  unfold openDocument
  split
  · exact nofun
  · split <;> exact nofun

theorem findElement_ne_circular {reference : String} {fragment : Option String} :
    findElement d reference fragment ≠ .error (.circular r) := by
  intro h
  unfold findElement at h
  split at h <;> split at h <;> cases h

theorem locate_eq (files : Files) (d : Document) (active : List String) (r : String) :
    locate files d active r = (do
      let found ← openDocument files d r (splitReference r).1
      if active.contains (frameOf found r).key then .error (.circular r)
      else
        let node ← findElement found r (splitReference r).2
        .ok ⟨(frameOf found r).key, found, node⟩) := by
  unfold locate
  simp only [← targetKey_eq]

theorem locate_of_active
    (hopen : openDocument files d r (splitReference r).1 = .ok found)
    (hactive : (frameOf found r).key ∈ active) :
    locate files d active r = .error (.circular r) := by
  rw [locate_eq, hopen, ok_bind, if_pos (List.contains_iff_mem.2 hactive)]

theorem locate_eq_circular {r' : String} (h : locate files d active r = .error (.circular r')) :
    r' = r ∧ ∃ found, openDocument files d r (splitReference r).1 = .ok found ∧
      (frameOf found r).key ∈ active := by
  rw [locate_eq] at h
  rcases bind_eq_error_iff.1 h with h | ⟨found, hopen, h⟩
  · exact absurd h openDocument_ne_circular
  · split at h
    · next hactive =>
      cases h
      exact ⟨rfl, found, hopen, List.contains_iff_mem.1 hactive⟩
    · rcases bind_eq_error_iff.1 h with h | ⟨node, -, h⟩
      · exact absurd h findElement_ne_circular
      · cases h

theorem locate_eq_ok (h : locate files d active r = .ok target) :
    openDocument files d r (splitReference r).1 = .ok target.document ∧
      target.key = (frameOf target.document r).key ∧ target.key ∉ active ∧
      findElement target.document r (splitReference r).2 = .ok target.node := by
  rw [locate_eq] at h
  obtain ⟨found, hopen, h⟩ := bind_eq_ok_iff.1 h
  split at h
  · cases h
  · next hactive =>
    obtain ⟨node, hnode, h⟩ := bind_eq_ok_iff.1 h
    cases h
    exact ⟨hopen, rfl, fun hmem => hactive (List.contains_iff_mem.2 hmem), hnode⟩

end Locate

/-! ### Running with levels -/

/-- References resolved where the walk stands, with the given number of levels. -/
def Walk.run (files : Files) (levels : Nat) (w : Walk) : Except StageError (List Tree) :=
  includeAt files levels w.document w.keys w.forest

/-- Where the walk stands after going across a reference of the first tree. -/
def Walk.beyond (chain : List Frame) (r : String) (t : Tree) (target : Target) : Walk :=
  ⟨target.document, frameOf target.document r :: chain, replacement t target⟩

theorem run_zero (files : Files) (w : Walk) : ∃ r, w.run files 0 = .error (.circular r) :=
  ⟨_, rfl⟩

theorem run_singleton : Walk.run files (levels + 1) ⟨d, chain, [t]⟩ =
    includeTree files (includeAt files levels) d (chain.map Frame.key) t := by
  change (do
    let here ← includeTree files (includeAt files levels) d (chain.map Frame.key) t
    Except.ok (here ++ [])) = _
  cases includeTree files (includeAt files levels) d (chain.map Frame.key) t with
  | error e => rfl
  | ok here => rw [ok_bind, List.append_nil]

theorem run_cons : Walk.run files levels ⟨d, chain, t :: rest⟩ = (do
    let here ← Walk.run files levels ⟨d, chain, [t]⟩
    let more ← Walk.run files levels ⟨d, chain, rest⟩
    .ok (here ++ more)) := by
  cases levels with
  | zero => rfl
  | succ levels =>
    rw [run_singleton]
    rfl

theorem run_reference (h : referenceOf? t = some r) :
    Walk.run files (levels + 1) ⟨d, chain, [t]⟩ = (do
      let target ← locate files d (chain.map Frame.key) r
      Walk.run files levels (.beyond chain r t target)) := by
  rw [run_singleton, includeTree_reference h]
  refine bind_congr_ok fun target htarget => ?_
  rw [(locate_eq_ok htarget).2.1]
  rfl

theorem run_other (h : referenceOf? t = none) :
    Walk.run files (levels + 1) ⟨d, chain, [t]⟩ =
      Walk.run files (levels + 1) ⟨d, chain, partsBelow t⟩ >>= rebuild t := by
  rw [run_singleton, includeTree_other h]
  rfl

/-! ### Where a walk goes -/

namespace Walk

/-- One step of a walk. -/
inductive Goes (files : Files) : Walk → Walk → Prop where
  /-- It goes across a reference to what the reference leads to. -/
  | across {d : Document} {chain : List Frame} {t : Tree} {rest : List Tree} {r : String}
    {target : Target} (href : referenceOf? t = some r)
    (htarget : locate files d (chain.map Frame.key) r = .ok target) :
    Goes files ⟨d, chain, t :: rest⟩ (.beyond chain r t target)
  /-- It goes down below a tree without a reference. -/
  | down {d : Document} {chain : List Frame} {t : Tree} {rest : List Tree}
    (href : referenceOf? t = none) : Goes files ⟨d, chain, t :: rest⟩ ⟨d, chain, partsBelow t⟩
  /-- It goes on behind a tree whose references are resolved, with some number of levels. -/
  | on {d : Document} {chain : List Frame} {t : Tree} {rest here : List Tree} {levels : Nat}
    (hhere : Walk.run files levels ⟨d, chain, [t]⟩ = .ok here) :
    Goes files ⟨d, chain, t :: rest⟩ ⟨d, chain, rest⟩

/-- A walk comes from one place to another. -/
def Reaches (files : Files) : Walk → Walk → Prop :=
  Relation.ReflTransGen (Goes files)

/-- A walk comes to a chain that is longer by the given number. -/
def RunsOut (files : Files) (levels : Nat) (w : Walk) : Prop :=
  ∃ w', w.Reaches files w' ∧ w'.chain.length = w.chain.length + levels

variable {w w' : Walk}

theorem RunsOut.of_across {target : Target} (href : referenceOf? t = some r)
    (htarget : locate files d (chain.map Frame.key) r = .ok target)
    (h : (Walk.beyond chain r t target).RunsOut files levels) :
    RunsOut files (levels + 1) ⟨d, chain, t :: rest⟩ := by
  obtain ⟨w', hreach, hlength⟩ := h
  refine ⟨w', .head (.across href htarget) hreach, ?_⟩
  change w'.chain.length = chain.length + (levels + 1)
  have hbeyond : (beyond chain r t target).chain.length = chain.length + 1 := rfl
  omega

theorem RunsOut.of_down (href : referenceOf? t = none)
    (h : RunsOut files levels ⟨d, chain, partsBelow t⟩) :
    RunsOut files levels ⟨d, chain, t :: rest⟩ := by
  obtain ⟨w', hreach, hlength⟩ := h
  exact ⟨w', .head (.down href) hreach, hlength⟩

theorem RunsOut.of_on {here : List Tree} {more : Nat}
    (hhere : Walk.run files more ⟨d, chain, [t]⟩ = .ok here)
    (h : RunsOut files levels ⟨d, chain, rest⟩) : RunsOut files levels ⟨d, chain, t :: rest⟩ := by
  obtain ⟨w', hreach, hlength⟩ := h
  exact ⟨w', .head (.on hhere) hreach, hlength⟩

end Walk

open Walk

/-- What is resolved is resolved with more levels to the same. -/
theorem run_stable : ∀ {levels : Nat} {w : Walk} {out : List Tree},
    w.run files levels = .ok out → w.run files (levels + 1) = .ok out
  | 0, w, out, h => by
    obtain ⟨r, hr⟩ := run_zero files w
    rw [hr] at h
    cases h
  | levels + 1, ⟨d, chain, forest⟩, out, h => by
    induction forest using forest_induction generalizing out with
    | nil => exact h
    | cons t rest below ih =>
      rw [run_cons] at h ⊢
      obtain ⟨here, hhere, h⟩ := bind_eq_ok_iff.1 h
      obtain ⟨more, hmore, h⟩ := bind_eq_ok_iff.1 h
      refine bind_eq_ok_iff.2 ⟨here, ?_, bind_eq_ok_iff.2 ⟨more, ih _ hmore, h⟩⟩
      cases href : referenceOf? t with
      | none =>
        rw [run_other href] at hhere ⊢
        obtain ⟨parts, hparts, hhere⟩ := bind_eq_ok_iff.1 hhere
        exact bind_eq_ok_iff.2 ⟨parts, below _ hparts, hhere⟩
      | some r =>
        rw [run_reference href] at hhere ⊢
        obtain ⟨target, htarget, hhere⟩ := bind_eq_ok_iff.1 hhere
        exact bind_eq_ok_iff.2 ⟨target, htarget, run_stable hhere⟩

theorem run_stable_le {more : Nat} {w : Walk} {out : List Tree} (h : w.run files levels = .ok out)
    (hle : levels ≤ more) : w.run files more = .ok out := by
  induction hle with
  | refl => exact h
  | step _ ih => exact run_stable ih

/-- With a number of levels, one more makes no difference to what is resolved, and every circle that
is found is one to which the walk comes. -/
structure Settles (files : Files) (levels : Nat) (w : Walk) (forest : List Tree) : Prop where
  /-- One more level makes no difference. -/
  stable : Walk.run files (levels + 1) ⟨w.document, w.chain, forest⟩ =
    Walk.run files levels ⟨w.document, w.chain, forest⟩
  /-- The walk comes to a circle that is found. -/
  circle : ∀ r, Walk.run files levels ⟨w.document, w.chain, forest⟩ = .error (.circular r) →
    ∃ w', w.Reaches files w' ∧ w'.Repeats files r

/-- A reference settles if what it leads to does. -/
theorem settles_reference (href : referenceOf? t = some r)
    (hbeyond : ∀ target, locate files d (chain.map Frame.key) r = .ok target →
      Settles files levels (.beyond chain r t target) (replacement t target)) :
    Settles files (levels + 1) ⟨d, chain, t :: rest⟩ [t] := by
  constructor
  · rw [run_reference href, run_reference href]
    exact bind_congr_ok fun target htarget => (hbeyond target htarget).stable
  · intro r' h
    rw [run_reference href] at h
    rcases bind_eq_error_iff.1 h with h | ⟨target, htarget, h⟩
    · obtain ⟨rfl, found, hopen, hactive⟩ := locate_eq_circular h
      exact ⟨_, .refl, _, ⟨t, rest, found, rfl, href, hopen, rfl⟩, hactive⟩
    · obtain ⟨w', hreach, hrepeats⟩ := (hbeyond target htarget).circle r' h
      exact ⟨w', .head (.across href htarget) hreach, hrepeats⟩

/-- A tree without a reference settles if what is below it does. -/
theorem settles_other (href : referenceOf? t = none)
    (hbelow : Settles files (levels + 1) ⟨d, chain, partsBelow t⟩ (partsBelow t)) :
    Settles files (levels + 1) ⟨d, chain, t :: rest⟩ [t] := by
  constructor
  · rw [run_other href, run_other href]
    exact congrArg (· >>= rebuild t) hbelow.stable
  · intro r h
    rw [run_other href] at h
    rcases bind_eq_error_iff.1 h with h | ⟨below, -, h⟩
    · obtain ⟨w', hreach, hrepeats⟩ := hbelow.circle r h
      exact ⟨w', .head (.down href) hreach, hrepeats⟩
    · exact absurd h rebuild_ne_circular

/-- With a number of levels, either the walk runs out of them or the forest settles. -/
theorem runs_out_or_settles : ∀ (levels : Nat) (w : Walk),
    w.RunsOut files levels ∨ Settles files levels w w.forest
  | 0, w => .inl ⟨w, .refl, rfl⟩
  | levels + 1, ⟨d, chain, forest⟩ => by
    -- Only a reference costs a level; below a tree and beside it the walk goes on with the same.
    induction forest using forest_induction with
    | nil => exact .inr ⟨rfl, fun r hr => nomatch hr⟩
    | cons t rest below ih =>
      have hfirst : RunsOut files (levels + 1) ⟨d, chain, t :: rest⟩ ∨
          Settles files (levels + 1) ⟨d, chain, t :: rest⟩ [t] := by
        cases href : referenceOf? t with
        | none => exact below.imp (.of_down href) (settles_other href)
        | some r =>
          by_cases hout : ∃ target, locate files d (chain.map Frame.key) r = .ok target ∧
              (Walk.beyond chain r t target).RunsOut files levels
          · obtain ⟨target, htarget, hout⟩ := hout
            exact .inl (.of_across href htarget hout)
          · refine .inr (settles_reference href fun target htarget => ?_)
            exact (runs_out_or_settles levels _).resolve_left fun h => hout ⟨target, htarget, h⟩
      refine hfirst.elim .inl fun hfirst => ?_
      have hsame : Walk.run files (levels + 2) ⟨d, chain, [t]⟩ =
          Walk.run files (levels + 1) ⟨d, chain, [t]⟩ := hfirst.stable
      rcases hhere : Walk.run files (levels + 1) ⟨d, chain, [t]⟩ with e | here
      · -- The first tree fails, so the others do not matter.
        have hfails : ∀ more : Nat, Walk.run files more ⟨d, chain, [t]⟩ = .error e →
            Walk.run files more ⟨d, chain, t :: rest⟩ = .error e := fun more h => by
          rw [run_cons, h]
          rfl
        refine .inr ⟨(hfails _ (hsame.trans hhere)).trans (hfails _ hhere).symm, fun r h => ?_⟩
        rw [hfails _ hhere] at h
        exact hfirst.circle r (hhere.trans h)
      · refine ih.imp (.of_on hhere) fun hrest => ⟨?_, fun r h => ?_⟩
        · have hmore : Walk.run files (levels + 2) ⟨d, chain, rest⟩ =
              Walk.run files (levels + 1) ⟨d, chain, rest⟩ := hrest.stable
          change Walk.run files (levels + 2) ⟨d, chain, t :: rest⟩ =
            Walk.run files (levels + 1) ⟨d, chain, t :: rest⟩
          rw [@run_cons files d chain t rest (levels + 2), hsame, hmore, ← run_cons]
        · rw [run_cons, hhere, ok_bind] at h
          rcases bind_eq_error_iff.1 h with h | ⟨more, -, h⟩
          · obtain ⟨w', hreach, hrepeats⟩ := hrest.circle r h
            exact ⟨w', .head (.on hhere) hreach, hrepeats⟩
          · cases h

/-- Where the walk comes to a circle, the circle is found with enough levels. -/
theorem run_circular {w w' : Walk} (hreach : w.Reaches files w') (hrepeats : w'.Repeats files r) :
    ∃ enough : Nat, ∀ levels, enough ≤ levels → w.run files levels = .error (.circular r) := by
  induction hreach using Relation.ReflTransGen.head_induction_on with
  | refl =>
    obtain ⟨_, ⟨t, rest, found, hforest, href, hopen, rfl⟩, hactive⟩ := hrepeats
    obtain ⟨d, chain, forest⟩ := w'
    obtain rfl : forest = t :: rest := hforest
    refine ⟨1, fun levels hlevels => ?_⟩
    obtain ⟨levels, rfl⟩ := Nat.exists_eq_add_of_le' hlevels
    have hcircle : locate files d (chain.map Frame.key) r = .error (.circular r) :=
      locate_of_active hopen hactive
    rw [run_cons, run_reference href, hcircle]
    rfl
  | head hgoes _ ih =>
    obtain ⟨enough, ih⟩ := ih
    cases hgoes with
    | @across d chain t rest r' target href htarget =>
      refine ⟨enough + 1, fun levels hlevels => ?_⟩
      obtain ⟨levels, rfl⟩ := Nat.exists_eq_add_of_le' (Nat.le_trans (Nat.le_add_left 1 _) hlevels)
      rw [run_cons, run_reference href, htarget, ok_bind, ih levels (by omega)]
      rfl
    | @down d chain t rest href =>
      refine ⟨enough + 1, fun levels hlevels => ?_⟩
      obtain ⟨levels, rfl⟩ := Nat.exists_eq_add_of_le' (Nat.le_trans (Nat.le_add_left 1 _) hlevels)
      rw [run_cons, run_other href, ih (levels + 1) (by omega)]
      rfl
    | @on d chain t rest here more hhere =>
      refine ⟨max enough more, fun levels hlevels => ?_⟩
      rw [run_cons, run_stable_le hhere (by omega), ok_bind, ih levels (by omega)]
      rfl

/-- If a walk never runs out of a number of levels, with so many levels it finds exactly the circles
to which it comes. -/
theorem run_eq_circular_iff {w : Walk} (h : ∀ more, levels ≤ more → ¬ w.RunsOut files more) :
    w.run files levels = .error (.circular r) ↔
      ∃ w', w.Reaches files w' ∧ w'.Repeats files r := by
  have hsettles : ∀ more, levels ≤ more → Settles files more w w.forest := fun more hmore =>
    (runs_out_or_settles more w).resolve_left (h more hmore)
  refine ⟨(hsettles levels (Nat.le_refl _)).circle r, fun ⟨w', hreach, hrepeats⟩ => ?_⟩
  have hsame : ∀ more, levels ≤ more → w.run files more = w.run files levels := fun more hmore => by
    induction hmore with
    | refl => rfl
    | step hle ih => exact ih ▸ (hsettles _ hle).stable
  obtain ⟨enough, henough⟩ := run_circular hreach hrepeats
  rw [← hsame (max levels enough) (by omega)]
  exact henough _ (by omega)

end MarkupRules.Schema
