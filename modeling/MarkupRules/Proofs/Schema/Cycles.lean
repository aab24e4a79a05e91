/-
# Circular references between abstract rules

Expansion follows references from content to content. It keeps the references whose content it is
in, follows none of them a second time, and so never follows more of them inside one another than
there are abstract rules and patterns. Hence the walk does not depend on what stands beyond that
many levels, and where every reference leads somewhere it fails exactly if a reference that it
comes to leads into a circle.

Key definitions: `Visits`, `Edge`, `Loops`, `Expandable`, `Circles`.

Key theorems: `loops_iff`, `expandTree_shape`, `trouble_iff_of_refersTo?`, `walk_agrees`,
`expandAt_reports`, `expansion_reports_circles`.
-/
import Mathlib.Data.List.Perm.Subperm
import Mathlib.Logic.Function.Iterate
import Mathlib.Logic.Relation
import MarkupRules.Proofs.Markup.Subtrees
import MarkupRules.Proofs.NamedLists
import MarkupRules.Proofs.Schema.Agreement
import MarkupRules.Schema.Expansion

namespace MarkupRules

open Markup (Document Tree)

namespace Schema

variable {a : Abstractions} {t s c : Tree} {r q : Abstraction} {active : List Abstraction}

/-! ### What the walk comes to -/

theorem isTerm_unique {x y : String} (hx : isTerm t x) (hy : isTerm t y) : x = y := by
  unfold isTerm Tree.isElement at hx hy
  cases he : t.element? with
  | none => simp [he] at hx
  | some e =>
    simp only [he, Markup.Name.isIn, Bool.and_eq_true, beq_iff_eq] at hx hy
    exact hx.1.symm.trans hy.1

/-- Whether a tree is an abstract rule or pattern, which expansion drops. -/
def isDropped (t : Tree) : Bool :=
  (isTerm t "rule" || isTerm t "pattern") && isAbstract t

/-- The abstract pattern of which a pattern is an instance. -/
def instanceOf? (t : Tree) : Option String :=
  if isTerm t "pattern" && !isAbstract t then t.attribute? "is-a" else none

/-- The abstract rule that an element extends. -/
def extendedRule? (t : Tree) : Option String :=
  if isTerm t "extends" then t.attribute? "rule" else none

/-- The abstract rule or pattern that an element refers to. -/
def refersTo? (t : Tree) : Option Abstraction :=
  match instanceOf? t with
  | some target => some (.pattern target)
  | none => (extendedRule? t).map .rule

/-- The trees below a tree that are walked with it: none below what is dropped, below a reference
to a rule and below remarks, and all but the parameters below an instance of a pattern. -/
def walkedBelow (t : Tree) : List Tree :=
  match t.payload with
  | .document => t.children
  | .element _ =>
    if isDropped t then []
    else if (instanceOf? t).isSome then t.children.filter fun c => !isTerm c "param"
    else if (extendedRule? t).isSome then []
    else t.children
  | _ => []

/-- A walk over the first tree comes to the second. -/
inductive Visits : Tree → Tree → Prop where
  /-- A walk starts at the top. -/
  | here (t : Tree) : Visits t t
  /-- It goes on below. -/
  | inside {t c s : Tree} (hc : c ∈ walkedBelow t) (hs : Visits c s) : Visits t s

theorem mem_children_of_walked (hc : c ∈ walkedBelow t) : c ∈ t.children := by
  unfold walkedBelow at hc
  repeat' split at hc
  all_goals first
    | exact hc
    | exact (List.mem_filter.1 hc).1
    | cases hc

theorem Visits.mem_subtrees (h : Visits t s) : s ∈ t.subtrees := by
  induction h with
  | here t => exact t.self_mem_subtrees
  | inside hc _ ih =>
    exact Tree.mem_subtrees.2 (.inr (Tree.mem_descendants.2 ⟨_, mem_children_of_walked hc, ih⟩))

theorem refersTo?_pattern_iff {target : String} :
    refersTo? t = some (.pattern target) ↔ instanceOf? t = some target := by
  unfold refersTo?
  cases instanceOf? t with
  | some other => simp
  | none => cases extendedRule? t <;> simp

theorem isTerm_of_instanceOf? {target : String} (h : instanceOf? t = some target) :
    isTerm t "pattern" := by
  unfold instanceOf? at h
  split at h
  · next hterm => exact (Bool.and_eq_true_iff.1 hterm).1
  · cases h

theorem refersTo?_rule_iff {id : String} :
    refersTo? t = some (.rule id) ↔ extendedRule? t = some id := by
  unfold refersTo?
  cases hinstance : instanceOf? t with
  | none => cases extendedRule? t <;> simp
  | some target =>
    have hnone : extendedRule? t = none := by
      unfold extendedRule?
      rw [if_neg]
      exact fun hterm => absurd (isTerm_unique hterm (isTerm_of_instanceOf? hinstance)) (by decide)
    simp [hnone]

theorem refersTo?_of_isDropped (h : isDropped t) : refersTo? t = none := by
  obtain ⟨hterm, habstract⟩ := Bool.and_eq_true_iff.1 h
  have hextends : extendedRule? t = none := by
    unfold extendedRule?
    rw [if_neg]
    intro hextends
    rcases Bool.or_eq_true_iff.1 hterm with hterm | hterm
    · exact absurd (isTerm_unique hextends hterm) (by decide)
    · exact absurd (isTerm_unique hextends hterm) (by decide)
  simp [refersTo?, instanceOf?, habstract, hextends]

/-- A walk over a tree comes to a reference. -/
def Mentions (t : Tree) (r : Abstraction) : Prop :=
  ∃ s, Visits t s ∧ refersTo? s = some r

theorem mentions_iff :
    Mentions t r ↔ refersTo? t = some r ∨ ∃ c ∈ walkedBelow t, Mentions c r := by
  constructor
  · rintro ⟨s, hs, hr⟩
    cases hs with
    | here => exact .inl hr
    | inside hc hs => exact .inr ⟨_, hc, s, hs, hr⟩
  · rintro (hr | ⟨c, hc, s, hs, hr⟩)
    · exact ⟨t, .here t, hr⟩
    · exact ⟨s, .inside hc hs, hr⟩

/-! ### What references lead to -/

/-- The content of the first abstraction refers to the second. -/
def Edge (a : Abstractions) (r s : Abstraction) : Prop :=
  ∃ content, a.content? r = some content ∧ ∃ c ∈ content, Mentions c s

/-- Following references from `r` inside the content of those in `active`, one comes to a
reference that is being followed, or into a circle. -/
def Loops (a : Abstractions) (active : List Abstraction) (r : Abstraction) : Prop :=
  ∃ s, Relation.ReflTransGen (Edge a) r s ∧ (s ∈ active ∨ Relation.TransGen (Edge a) s s)

/-- Following one reference more, what is being followed grows by that reference. -/
theorem loops_iff : Loops a active r ↔ r ∈ active ∨ ∃ s, Edge a r s ∧ Loops a (r :: active) s := by
  constructor
  · rintro ⟨s, hrs, hs⟩
    rcases Relation.ReflTransGen.cases_head hrs with rfl | ⟨next, hnext, hlater⟩
    · rcases hs with hs | hs
      · exact .inl hs
      · obtain ⟨next, hnext, hback⟩ := Relation.TransGen.head'_iff.1 hs
        exact .inr ⟨next, hnext, r, hback, .inl List.mem_cons_self⟩
    · exact .inr ⟨next, hnext, s, hlater, hs.imp_left (List.mem_cons_of_mem r)⟩
  · rintro (hr | ⟨next, hnext, s, hlater, hs⟩)
    · exact ⟨r, .refl, .inl hr⟩
    · rcases hs with hs | hs
      · rcases List.mem_cons.1 hs with rfl | hs
        · exact ⟨s, .refl, .inr (.head' hnext hlater)⟩
        · exact ⟨s, .head hnext hlater, .inl hs⟩
      · exact ⟨s, .head hnext hlater, .inr hs⟩

/-- A walk over a tree comes to a reference that leads back or into a circle. -/
def Trouble (a : Abstractions) (active : List Abstraction) (t : Tree) : Prop :=
  ∃ r, Mentions t r ∧ Loops a active r

theorem trouble_iff : Trouble a active t ↔
    (∃ r, refersTo? t = some r ∧ Loops a active r) ∨ ∃ c ∈ walkedBelow t, Trouble a active c := by
  constructor
  · rintro ⟨r, hr, hloops⟩
    rcases mentions_iff.1 hr with hr | ⟨c, hc, hr⟩
    · exact .inl ⟨r, hr, hloops⟩
    · exact .inr ⟨c, hc, r, hr, hloops⟩
  · rintro (⟨r, hr, hloops⟩ | ⟨c, hc, r, hr, hloops⟩)
    · exact ⟨r, mentions_iff.2 (.inl hr), hloops⟩
    · exact ⟨r, mentions_iff.2 (.inr ⟨c, hc, hr⟩), hloops⟩

/-! ### References that are being followed -/

/-- References that can be followed inside one another: each has content and none comes twice. -/
structure Followed (a : Abstractions) (active : List Abstraction) : Prop where
  /-- None comes twice. -/
  nodup : active.Nodup
  /-- Each has content. -/
  known : ∀ r ∈ active, (a.content? r).isSome

theorem followed_nil : Followed a [] :=
  ⟨List.nodup_nil, nofun⟩

theorem enter_eq_ok_iff {content : List Tree} :
    a.enter active r = .ok content ↔ a.content? r = some content ∧ r ∉ active := by
  unfold Abstractions.enter
  cases a.content? r with
  | none => simp
  | some found =>
    by_cases hr : r ∈ active
    · simp [hr]
    · simp [hr]

theorem Followed.enter (h : Followed a active) {content : List Tree}
    (hr : a.enter active r = .ok content) : Followed a (r :: active) := by
  obtain ⟨hcontent, hnot⟩ := enter_eq_ok_iff.1 hr
  exact ⟨List.nodup_cons.2 ⟨hnot, h.nodup⟩,
    List.forall_mem_cons.2 ⟨by rw [hcontent]; rfl, h.known⟩⟩

/-- No more references are followed inside one another than there are abstractions. -/
theorem Followed.length_le (h : Followed a active) : active.length ≤ a.size := by
  have hsub : active ⊆ a.rules.names.map .rule ++ a.patterns.names.map .pattern := by
    intro r hr
    obtain ⟨content, hcontent⟩ := Option.isSome_iff_exists.1 (h.known r hr)
    rw [List.mem_append, List.mem_map, List.mem_map]
    cases r with
    | rule id => exact .inl ⟨id, NamedList.mem_names_of_get? hcontent, rfl⟩
    | pattern id => exact .inr ⟨id, NamedList.mem_names_of_get? hcontent, rfl⟩
  have hlength := (h.nodup.subperm hsub).length_le
  simpa [Abstractions.size, NamedList.names, NamedList.size] using hlength

/-! ### One step of the walk -/

/-- What expansion does with a tree: it gives something without walking on, walks on below, or
follows a reference. -/
inductive Shape (a : Abstractions) (t : Tree) : Prop where
  /-- Nothing below is walked. -/
  | fixed (out : List Tree) (hnone : refersTo? t = none) (hbelow : walkedBelow t = [])
      (h : ∀ deeper parameters active, expandTree a deeper parameters active t = .ok out)
  /-- What is below is walked, and what comes of it is put together. -/
  | framed (f : List (String × String) → List Tree → List Tree) (hnone : refersTo? t = none)
      (hbelow : walkedBelow t = t.children)
      (h : ∀ deeper parameters active, expandTree a deeper parameters active t =
        (expandAll a deeper parameters active t.children).map (f parameters))
  /-- An instance of an abstract pattern gets the content of the pattern behind its own. -/
  | «instance» (target : String) (f : List Tree → List Tree → List Tree)
      (hrefers : refersTo? t = some (.pattern target))
      (hbelow : walkedBelow t = t.children.filter fun c => !isTerm c "param")
      (h : ∀ deeper parameters active, expandTree a deeper parameters active t = (do
        let content ← a.enter active (.pattern target)
        let given ← readParameters target t.children
        let own ← expandOwn a deeper (.pattern target :: active) t.children
        let inherited ← deeper given (.pattern target :: active) content
        .ok (f own inherited)))
  /-- The content of an abstract rule takes the place of a reference to it. -/
  | extension (id : String) (hrefers : refersTo? t = some (.rule id)) (hbelow : walkedBelow t = [])
      (h : ∀ deeper parameters active, expandTree a deeper parameters active t = (do
        let content ← a.enter active (.rule id)
        deeper parameters (.rule id :: active) content))

theorem walkedBelow_element {e : Markup.Element} (ht : t.payload = .element e) :
    walkedBelow t = if isDropped t then []
      else if (instanceOf? t).isSome then t.children.filter fun c => !isTerm c "param"
      else if (extendedRule? t).isSome then [] else t.children := by
  rw [walkedBelow, ht]

/-- A pattern that is not dropped is an instance if it has the attribute. -/
theorem instanceOf?_of_not_isDropped (h : ¬ isDropped t) :
    instanceOf? t = if isTerm t "pattern" then t.attribute? "is-a" else none := by
  unfold instanceOf?
  by_cases hpattern : isTerm t "pattern"
  · have hconcrete : isAbstract t = false := by simpa [isDropped, hpattern] using h
    simp [hpattern, hconcrete]
  · simp [hpattern]

/-- What expansion does with an element, told by what the element refers to. -/
theorem expandTree_element {e : Markup.Element} (ht : t.payload = .element e) (deeper : Expander)
    (parameters : List (String × String)) (active : List Abstraction) :
    expandTree a deeper parameters active t =
      if isDropped t then .ok []
      else match instanceOf? t with
        | some target => (do
          let content ← a.enter active (.pattern target)
          let given ← readParameters target t.children
          let own ← expandOwn a deeper (.pattern target :: active) t.children
          let inherited ← deeper given (.pattern target :: active) content
          .ok [.node (.element (e.withoutAttribute "is-a")) (own ++ inherited)])
        | none =>
          match extendedRule? t with
          | some id => (do
            let content ← a.enter active (.rule id)
            deeper parameters (.rule id :: active) content)
          | none => (do
            let below ← expandAll a deeper parameters active t.children
            .ok [.node (.element (substituteIn parameters e)) below]) := by
  obtain ⟨payload, below⟩ := t
  obtain rfl : payload = .element e := ht
  by_cases hdropped : isDropped (.node (.element e) below)
  · rw [if_pos hdropped, expandTree]
    exact if_pos hdropped
  · rw [if_neg hdropped, instanceOf?_of_not_isDropped hdropped, expandTree]
    exact if_neg hdropped

theorem expandTree_shape (a : Abstractions) : ∀ t, Shape a t
  | .node .document below => by
    refine .framed (fun _ out => out) rfl rfl fun deeper parameters active => ?_
    rw [expandTree]
    change _ = (expandAll a deeper parameters active below).map fun out => out
    cases expandAll a deeper parameters active below <;> rfl
  | .node (.text s) below => .fixed [.node (.text s) []] rfl rfl fun _ _ _ => rfl
  | .node (.comment s) below => .fixed [.node (.comment s) []] rfl rfl fun _ _ _ => rfl
  | .node (.instruction x s) below =>
    .fixed [.node (.instruction x s) []] rfl rfl fun _ _ _ => rfl
  | .node (.element e) below => by
    generalize ht : Markup.Tree.node (.element e) below = t
    have hpayload : t.payload = .element e := by
      rw [← ht]
      rfl
    have hwalked := walkedBelow_element hpayload
    have hexpand := expandTree_element (a := a) hpayload
    -- The tests are made in the order in which expansion makes them.
    by_cases hdropped : isDropped t
    · refine .fixed [] (refersTo?_of_isDropped hdropped) ?_ fun deeper parameters active => ?_
      · rw [hwalked, if_pos hdropped]
      · rw [hexpand, if_pos hdropped]
    · simp only [if_neg hdropped] at hexpand hwalked
      cases hi : instanceOf? t with
      | some target =>
        simp only [hi, Option.isSome_some, if_true] at hexpand hwalked
        exact .instance target
          (fun own inherited => [.node (.element (e.withoutAttribute "is-a")) (own ++ inherited)])
          (refersTo?_pattern_iff.2 hi) hwalked hexpand
      | none =>
        simp only [hi, Option.isSome_none, Bool.false_eq_true, if_false] at hexpand hwalked
        cases he : extendedRule? t with
        | some id =>
          simp only [he, Option.isSome_some, if_true] at hexpand hwalked
          exact .extension id (refersTo?_rule_iff.2 he) hwalked hexpand
        | none =>
          simp only [he, Option.isSome_none, Bool.false_eq_true, if_false] at hexpand hwalked
          refine .framed
            (fun parameters below => [.node (.element (substituteIn parameters e)) below])
            (by simp [refersTo?, hi, he]) hwalked fun deeper parameters active => ?_
          rw [hexpand]
          cases expandAll a deeper parameters active t.children <;> rfl

/-! ### The walk ends within its levels -/

/-- Two walks over content do the same where more references are being followed than `depth`. -/
def AgreeBeyond (a : Abstractions) (depth : Nat) (deeper deeper' : Expander) : Prop :=
  ∀ parameters active content, Followed a active → depth < active.length →
    deeper parameters active content = deeper' parameters active content

theorem AgreeBeyond.mono {depth depth' : Nat} {deeper deeper' : Expander}
    (h : AgreeBeyond a depth deeper deeper') (hle : depth ≤ depth') :
    AgreeBeyond a depth' deeper deeper' :=
  fun parameters active content hactive hlt =>
    h parameters active content hactive (Nat.lt_of_le_of_lt hle hlt)

section Congruence

variable {deeper deeper' : Expander}

mutual

/-- A step of the walk asks for nothing but the content of a reference that is followed on top of
those in `active`. -/
theorem expandTree_congr : ∀ (t : Tree) {active : List Abstraction}, Followed a active →
    AgreeBeyond a active.length deeper deeper' → ∀ parameters,
      expandTree a deeper parameters active t = expandTree a deeper' parameters active t
  | .node payload below, active, hactive, hagree, parameters => by
    cases expandTree_shape a (.node payload below) with
    | fixed out _ _ h => rw [h, h]
    | framed f _ _ h =>
      rw [h, h]
      exact congrArg _ (expandAll_congr below hactive hagree parameters)
    | «instance» target f _ _ h =>
      rw [h, h]
      refine bind_congr_ok fun content hcontent => bind_congr_ok fun given _ => ?_
      have hlonger := hactive.enter hcontent
      rw [hagree given _ content hlonger (by simp)]
      have hown := expandOwn_congr below hlonger (hagree.mono (by simp))
      exact congrArg (· >>= _) hown
    | extension id _ _ h =>
      rw [h, h]
      exact bind_congr_ok fun content hcontent =>
        hagree parameters _ content (hactive.enter hcontent) (by simp)

theorem expandAll_congr : ∀ (ts : List Tree) {active : List Abstraction}, Followed a active →
    AgreeBeyond a active.length deeper deeper' → ∀ parameters,
      expandAll a deeper parameters active ts = expandAll a deeper' parameters active ts
  | [], _, _, _, _ => rfl
  | t :: rest, active, hactive, hagree, parameters => by
    rw [expandAll, expandAll, expandTree_congr t hactive hagree,
      expandAll_congr rest hactive hagree]

theorem expandOwn_congr : ∀ (ts : List Tree) {active : List Abstraction}, Followed a active →
    AgreeBeyond a active.length deeper deeper' →
      expandOwn a deeper active ts = expandOwn a deeper' active ts
  | [], _, _, _ => rfl
  | t :: rest, active, hactive, hagree => by
    rw [expandOwn, expandOwn, expandTree_congr t hactive hagree,
      expandOwn_congr rest hactive hagree]

end

end Congruence

/-- Whatever stands at the bottom of a stack of walks is not asked for, if the stack has as many
levels as there are abstractions that are not being followed. -/
theorem walk_agrees (bottom bottom' : Expander) : ∀ {depth levels levels' : Nat},
    a.size ≤ levels + depth → a.size ≤ levels' + depth →
      AgreeBeyond a depth ((expandAll a)^[levels] bottom) ((expandAll a)^[levels'] bottom') := by
  intro depth levels
  induction levels generalizing depth with
  | zero =>
    intro _ hsize _ parameters active content hactive hlt
    have := hactive.length_le
    omega
  | succ levels ih =>
    intro levels' hsize hsize' parameters active content hactive hlt
    have hlength := hactive.length_le
    obtain ⟨levels', rfl⟩ : ∃ k, levels' = k + 1 := ⟨levels' - 1, by omega⟩
    rw [Function.iterate_succ_apply', Function.iterate_succ_apply']
    exact expandAll_congr content hactive (ih (by omega) (by omega)) parameters

theorem expandAt_eq_iterate (levels : Nat) :
    expandAt a levels = (expandAll a)^[levels] (expandAt a 0) := by
  induction levels with
  | zero => rfl
  | succ levels ih => rw [Function.iterate_succ_apply', ← ih, expandAt]

/-! ### What is reported -/

/-- A step fails with a circular reference in one case and has a result in all others. -/
structure Reports {α : Type} (x : Except StageError α) (circle : Prop) : Prop where
  /-- It fails in that case. -/
  error : circle → ∃ id, x = .error (.circular id)
  /-- It has a result otherwise. -/
  ok : ¬ circle → ∃ v, x = .ok v

namespace Reports

variable {α β : Type} {x : Except StageError α} {f : α → Except StageError β} {circle other : Prop}

theorem of_ok {v : α} (h : x = .ok v) (hnot : ¬ circle) : Reports x circle :=
  ⟨fun hc => absurd hc hnot, fun _ => ⟨v, h⟩⟩

theorem imp (h : Reports x circle) (hiff : circle ↔ other) : Reports x other :=
  ⟨fun ho => h.error (hiff.2 ho), fun ho => h.ok fun hc => ho (hiff.1 hc)⟩

theorem bind (h : Reports x circle) (hf : ∀ v, x = .ok v → Reports (f v) other) :
    Reports (x >>= f) (circle ∨ other) := by
  by_cases hc : circle
  · obtain ⟨id, hid⟩ := h.error hc
    exact ⟨fun _ => ⟨id, bind_eq_error_iff.2 (.inl hid)⟩, fun hnot => absurd (.inl hc) hnot⟩
  · obtain ⟨v, hv⟩ := h.ok hc
    rw [hv, ok_bind]
    exact (hf v hv).imp ⟨.inr, fun hor => hor.resolve_left hc⟩

theorem map (h : Reports x circle) (g : α → β) : Reports (x.map g) circle := by
  constructor
  · intro hc
    obtain ⟨id, rfl⟩ := h.error hc
    exact ⟨id, rfl⟩
  · intro hc
    obtain ⟨v, rfl⟩ := h.ok hc
    exact ⟨g v, rfl⟩

end Reports

/-- Following references where they lead, expansion may come from the first tree to the second. -/
inductive Reached (a : Abstractions) : Tree → Tree → Prop where
  /-- It starts at the top. -/
  | here (t : Tree) : Reached a t t
  /-- It goes on below. -/
  | inside {t c s : Tree} (hc : c ∈ walkedBelow t) (hs : Reached a c s) : Reached a t s
  /-- It goes on in the content of what is referred to. -/
  | entered {t c s : Tree} {r : Abstraction} {content : List Tree} (hr : refersTo? t = some r)
      (hcontent : a.content? r = some content) (hc : c ∈ content) (hs : Reached a c s) :
      Reached a t s

/-- A tree whose references lead somewhere. -/
structure Resolved (a : Abstractions) (t : Tree) : Prop where
  /-- What is referred to has content. -/
  known : ∀ s r, Reached a t s → refersTo? s = some r → (a.content? r).isSome
  /-- The parameters of instances are named. -/
  named : ∀ p target, Reached a t p → instanceOf? p = some target →
    ∀ c ∈ p.children, isTerm c "param" → (c.attribute? "name").isSome
  /-- What stands in an instance of a pattern does not lead to the pattern. -/
  apart : ∀ p target, Reached a t p → instanceOf? p = some target →
    ∀ c ∈ walkedBelow p, ∀ r, Mentions c r →
      ¬ Relation.ReflTransGen (Edge a) r (.pattern target)

theorem Resolved.of_reached (h : Resolved a t) (hs : ∀ {u}, Reached a s u → Reached a t u) :
    Resolved a s :=
  ⟨fun u r hu => h.known u r (hs hu), fun p target hp => h.named p target (hs hp),
    fun p target hp => h.apart p target (hs hp)⟩

theorem Resolved.inside (h : Resolved a t) (hc : c ∈ walkedBelow t) : Resolved a c :=
  h.of_reached (.inside hc)

theorem Resolved.entered (h : Resolved a t) (hr : refersTo? t = some r) {content : List Tree}
    (hcontent : a.content? r = some content) (hc : c ∈ content) : Resolved a c :=
  h.of_reached (.entered hr hcontent hc)

theorem enter_reports (hknown : (a.content? r).isSome) : Reports (a.enter active r) (r ∈ active) := by
  obtain ⟨content, hcontent⟩ := Option.isSome_iff_exists.1 hknown
  unfold Abstractions.enter
  rw [hcontent]
  by_cases hr : r ∈ active
  · exact ⟨fun _ => ⟨r.id, by simp [hr]⟩, fun hnot => absurd hr hnot⟩
  · exact .of_ok (v := content) (by simp [hr]) hr

theorem exists_readParameters (target : String) : ∀ {ts : List Tree},
    (∀ c ∈ ts, isTerm c "param" → (c.attribute? "name").isSome) →
      ∃ given, readParameters target ts = .ok given
  | [], _ => ⟨[], rfl⟩
  | t :: rest, h => by
    obtain ⟨ht, hrest⟩ := List.forall_mem_cons.1 h
    obtain ⟨more, hmore⟩ := exists_readParameters target hrest
    by_cases hparam : isTerm t "param"
    · obtain ⟨name, hname⟩ := Option.isSome_iff_exists.1 (ht hparam)
      exact ⟨(name, (t.attribute? "value").getD "") :: more, by
        simp only [readParameters, hparam, if_true, hname, hmore, ok_bind]⟩
    · exact ⟨more, by simp only [readParameters, hparam, hmore, if_false, Bool.false_eq_true]⟩

/-- A reference leads back or into a circle if it is being followed or its content does so. -/
theorem loops_iff_trouble {content : List Tree} (hcontent : a.content? r = some content) :
    Loops a active r ↔ r ∈ active ∨ ∃ c ∈ content, Trouble a (r :: active) c := by
  rw [loops_iff]
  refine or_congr_right ⟨?_, ?_⟩
  · rintro ⟨s, ⟨found, hfound, c, hc, hs⟩, hloops⟩
    cases hcontent.symm.trans hfound
    exact ⟨c, hc, s, hs, hloops⟩
  · rintro ⟨c, hc, s, hs, hloops⟩
    exact ⟨s, ⟨content, hcontent, c, hc, hs⟩, hloops⟩

/-- Following what no reference of a tree leads to changes nothing for the tree. -/
theorem trouble_cons_iff
    (hapart : ∀ r, Mentions t r → ¬ Relation.ReflTransGen (Edge a) r q) :
    Trouble a (q :: active) t ↔ Trouble a active t := by
  constructor
  · rintro ⟨r, hr, s, hrs, hs⟩
    refine ⟨r, hr, s, hrs, hs.imp_left fun hs => ?_⟩
    exact (List.mem_cons.1 hs).resolve_left fun hsq => hapart r hr (hsq ▸ hrs)
  · rintro ⟨r, hr, s, hrs, hs⟩
    exact ⟨r, hr, s, hrs, hs.imp_left (List.mem_cons_of_mem q)⟩

/-- A reference leads into a circle if it is being followed, or if something does so below it or
inside its content. -/
theorem trouble_iff_of_refersTo? {content : List Tree} (hrefers : refersTo? t = some r)
    (hcontent : a.content? r = some content)
    (hapart : ∀ c ∈ walkedBelow t, (Trouble a (r :: active) c ↔ Trouble a active c)) :
    Trouble a active t ↔ r ∈ active ∨ (∃ c ∈ walkedBelow t, Trouble a (r :: active) c) ∨
      ∃ c ∈ content, Trouble a (r :: active) c := by
  rw [trouble_iff, hrefers]
  simp only [Option.some.injEq, exists_eq_left', loops_iff_trouble hcontent]
  rw [exists_congr fun c => and_congr_right (hapart c), or_assoc]
  exact or_congr_right or_comm

/-- A walk over content reports the circles it leads into, where more references are being followed
than `depth`. -/
def ReportsBeyond (a : Abstractions) (depth : Nat) (deeper : Expander) : Prop :=
  ∀ parameters active content, Followed a active → depth < active.length →
    (∀ c ∈ content, Resolved a c) →
      Reports (deeper parameters active content) (∃ c ∈ content, Trouble a active c)

section Step

variable {deeper : Expander}

mutual

/-- A step of the walk reports the circles that the tree leads into, if the walk over content
does. -/
theorem expandTree_reports : ∀ (t : Tree) {active : List Abstraction}, Followed a active →
    ReportsBeyond a active.length deeper → Resolved a t → ∀ parameters,
      Reports (expandTree a deeper parameters active t) (Trouble a active t)
  | .node payload below, active, hactive, hdeeper, hresolved, parameters => by
    cases expandTree_shape a (.node payload below) with
    | fixed out hnone hbelow h =>
      refine .of_ok (h deeper parameters active) fun hcircle => ?_
      rw [trouble_iff, hnone, hbelow] at hcircle
      simp at hcircle
    | framed f hnone hbelow h =>
      rw [h]
      have hall : ∀ c ∈ below, Resolved a c := fun c hc =>
        hresolved.inside (by rw [hbelow]; exact hc)
      refine ((expandAll_reports below hactive hdeeper hall parameters).map _).imp ?_
      rw [trouble_iff, hbelow]
      simp [hnone, Tree.children]
    | «instance» target f hrefers hbelow h =>
      have hknown := hresolved.known _ _ (.here _) hrefers
      obtain ⟨content, hcontent⟩ := Option.isSome_iff_exists.1 hknown
      have hinstance := refersTo?_pattern_iff.1 hrefers
      obtain ⟨given, hgiven⟩ :=
        exists_readParameters target (hresolved.named _ _ (.here _) hinstance)
      have hown : ∀ c ∈ below, ¬ isTerm c "param" → Resolved a c := fun c hc hparam =>
        hresolved.inside (by rw [hbelow]; exact List.mem_filter.2 ⟨hc, by simpa using hparam⟩)
      -- What an instance has of its own does not come back to its pattern.
      have hapart : ∀ c ∈ walkedBelow (.node payload below),
          (Trouble a (.pattern target :: active) c ↔ Trouble a active c) := fun c hc =>
        trouble_cons_iff (hresolved.apart _ _ (.here _) hinstance c hc)
      have hcircle := trouble_iff_of_refersTo? hrefers hcontent hapart
      rw [h]
      refine ((enter_reports hknown).bind fun found hfound => ?_).imp hcircle.symm
      have hlonger := hactive.enter hfound
      cases hcontent.symm.trans (enter_eq_ok_iff.1 hfound).1
      rw [hgiven, ok_bind, hbelow]
      refine Reports.bind (expandOwn_reports below hlonger ?_ hown) fun own _ => ?_
      · exact fun parameters active content hactive hlt =>
          hdeeper parameters active content hactive (Nat.lt_of_succ_lt hlt)
      · exact (hdeeper given _ content hlonger (by simp) fun c hc =>
          hresolved.entered hrefers hcontent hc).map (f own)
    | extension id hrefers hbelow h =>
      have hknown := hresolved.known _ _ (.here _) hrefers
      obtain ⟨content, hcontent⟩ := Option.isSome_iff_exists.1 hknown
      have hcircle : Trouble a active (.node payload below) ↔
          .rule id ∈ active ∨ ∃ c ∈ content, Trouble a (.rule id :: active) c := by
        rw [trouble_iff_of_refersTo? hrefers hcontent (by simp [hbelow]), hbelow]
        simp
      rw [h]
      refine ((enter_reports hknown).bind fun found hfound => ?_).imp hcircle.symm
      cases hcontent.symm.trans (enter_eq_ok_iff.1 hfound).1
      exact hdeeper parameters _ content (hactive.enter hfound) (by simp) fun c hc =>
        hresolved.entered hrefers hcontent hc

theorem expandAll_reports : ∀ (ts : List Tree) {active : List Abstraction}, Followed a active →
    ReportsBeyond a active.length deeper → (∀ t ∈ ts, Resolved a t) → ∀ parameters,
      Reports (expandAll a deeper parameters active ts) (∃ t ∈ ts, Trouble a active t)
  | [], _, _, _, _, _ => .of_ok rfl (by simp)
  | t :: rest, active, hactive, hdeeper, hresolved, parameters => by
    obtain ⟨ht, hrest⟩ := List.forall_mem_cons.1 hresolved
    have hhere := expandTree_reports t hactive hdeeper ht parameters
    have hmore := expandAll_reports rest hactive hdeeper hrest parameters
    rw [expandAll]
    exact (hhere.bind fun here _ => hmore.map (here ++ ·)).imp (by simp)

theorem expandOwn_reports : ∀ (ts : List Tree) {active : List Abstraction}, Followed a active →
    ReportsBeyond a active.length deeper → (∀ t ∈ ts, ¬ isTerm t "param" → Resolved a t) →
      Reports (expandOwn a deeper active ts)
        (∃ t ∈ ts.filter fun c => !isTerm c "param", Trouble a active t)
  | [], _, _, _, _ => .of_ok rfl (by simp)
  | t :: rest, active, hactive, hdeeper, hresolved => by
    obtain ⟨ht, hrest⟩ := List.forall_mem_cons.1 hresolved
    have hmore := expandOwn_reports rest hactive hdeeper hrest
    rw [expandOwn]
    by_cases hparam : isTerm t "param"
    · rw [if_pos hparam, ok_bind, List.filter_cons_of_neg (by simpa using hparam)]
      exact hmore.map ([] ++ ·)
    · have hhere := expandTree_reports t hactive hdeeper (ht hparam) []
      rw [if_neg hparam, List.filter_cons_of_pos (by simpa using hparam)]
      exact (hhere.bind fun here _ => hmore.map (here ++ ·)).imp (by simp)

end

end Step

/-- Every walk with enough levels reports the circles that content leads into. -/
theorem expandAt_reports : ∀ {levels depth : Nat}, a.size ≤ levels + depth →
    ReportsBeyond a depth (expandAt a levels) := by
  intro levels
  induction levels with
  | zero =>
    intro depth hsize parameters active content hactive hlt
    have := hactive.length_le
    omega
  | succ levels ih =>
    intro depth hsize parameters active content hactive hlt hresolved
    exact expandAll_reports content hactive (ih (by omega)) hresolved parameters

/-! ### Circles of abstract rules -/

/-- The content of the first abstract rule extends the second. -/
def RuleEdge (a : Abstractions) (r s : String) : Prop :=
  ∃ content, a.rules.get? r = some content ∧
    ∃ c ∈ content, ∃ x, Visits c x ∧ extendedRule? x = some s

/-- What expansion keeps: what it walks over in the schema itself, and in the content of the
abstract patterns of which there are instances. -/
def Kept (schema x : Tree) : Prop :=
  Visits schema x ∨
    ∃ p target content, Visits schema p ∧ instanceOf? p = some target ∧
      (Abstractions.ofSchema schema).patterns.get? target = some content ∧
      ∃ c ∈ content, Visits c x

/-- A schema in which no pattern stands in a pattern or rule, all references that can be reached
lead somewhere, and all parameters of instances are named. -/
structure Expandable (schema : Tree) : Prop where
  /-- No pattern stands in a pattern or rule. -/
  apart : ∀ t ∈ schema.subtrees, isTerm t "pattern" ∨ isTerm t "rule" →
    ∀ s ∈ t.descendants, ¬ isTerm s "pattern"
  /-- What is referred to is in the schema. -/
  known : ∀ s r, Reached (Abstractions.ofSchema schema) schema s → refersTo? s = some r →
    ((Abstractions.ofSchema schema).content? r).isSome
  /-- The parameters of instances that are kept are named. -/
  named : ∀ p target, Kept schema p → instanceOf? p = some target →
    ∀ c ∈ p.children, isTerm c "param" → (c.attribute? "name").isSome

/-- An abstract rule that is extended in what is kept leads to one that leads back to itself. -/
def Circles (schema : Tree) : Prop :=
  ∃ x id r, Kept schema x ∧ extendedRule? x = some id ∧
    Relation.ReflTransGen (RuleEdge (Abstractions.ofSchema schema)) id r ∧
    Relation.TransGen (RuleEdge (Abstractions.ofSchema schema)) r r

theorem mentions_rule_iff {id : String} :
    Mentions t (.rule id) ↔ ∃ x, Visits t x ∧ extendedRule? x = some id :=
  exists_congr fun _ => and_congr_right fun _ => refersTo?_rule_iff

theorem edge_rule_iff {x y : String} : Edge a (.rule x) (.rule y) ↔ RuleEdge a x y :=
  exists_congr fun _ => and_congr_right fun _ => exists_congr fun _ =>
    and_congr_right fun _ => mentions_rule_iff

/-- What a walk comes to by following references stands in the content of some reference. -/
theorem Reached.visits_or (h : Reached a t s) :
    Visits t s ∨ ∃ q content c, a.content? q = some content ∧ c ∈ content ∧ Visits c s := by
  induction h with
  | here t => exact .inl (.here t)
  | inside hc _ ih => exact ih.imp_left (.inside hc)
  | entered _ hcontent hc _ ih =>
    exact .inr (ih.elim (fun hs => ⟨_, _, _, hcontent, hc, hs⟩) id)

theorem mem_abstractContents {schema : Tree} {kind id : String} {content : List Tree}
    (h : (abstractContents schema kind).get? id = some content) :
    ∃ t ∈ schema.descendants, isTerm t kind ∧ content = t.children := by
  obtain ⟨t, ht, hentry⟩ := List.mem_filterMap.1 (NamedList.mem_of_get?_ofList h)
  split at hentry
  · next hkind =>
    obtain ⟨x, -, hx⟩ := Option.map_eq_some_iff.1 hentry
    cases hx
    exact ⟨t, ht, (Bool.and_eq_true_iff.1 hkind).2, rfl⟩
  · cases hentry

/-- What a reference leads to stands in a pattern or rule of the schema. -/
theorem exists_of_content? {schema : Tree} {content : List Tree}
    (h : (Abstractions.ofSchema schema).content? r = some content) :
    ∃ t ∈ schema.descendants, (isTerm t "pattern" ∨ isTerm t "rule") ∧ content = t.children := by
  cases r with
  | rule id =>
    obtain ⟨t, ht, hterm, hchildren⟩ := mem_abstractContents h
    exact ⟨t, ht, .inr hterm, hchildren⟩
  | pattern id =>
    obtain ⟨t, ht, hterm, hchildren⟩ := mem_abstractContents h
    exact ⟨t, ht, .inl hterm, hchildren⟩

theorem mem_subtrees_of_content? {schema : Tree} {content : List Tree}
    (h : (Abstractions.ofSchema schema).content? r = some content) (hc : c ∈ content)
    (hs : Visits c s) : s ∈ schema.subtrees := by
  obtain ⟨t, ht, -, rfl⟩ := exists_of_content? h
  exact Tree.subtrees_trans (Tree.mem_subtrees.2 (.inr (Tree.mem_descendants.2
    ⟨c, hc, hs.mem_subtrees⟩))) schema (Tree.mem_subtrees.2 (.inr ht))

namespace Expandable

variable {schema : Tree} {content : List Tree}

/-- It is enough that all references in a schema lead somewhere and that all parameters in it are
named. -/
theorem of_subtrees
    (hapart : ∀ t ∈ schema.subtrees, isTerm t "pattern" ∨ isTerm t "rule" →
      ∀ s ∈ t.descendants, ¬ isTerm s "pattern")
    (hknown : ∀ s ∈ schema.subtrees, ∀ r ∈ refersTo? s,
      ((Abstractions.ofSchema schema).content? r).isSome)
    (hnamed : ∀ p ∈ schema.subtrees, ∀ c ∈ p.children, isTerm c "param" →
      (c.attribute? "name").isSome) : Expandable schema where
  apart := hapart
  known s r hs hr := by
    refine hknown s ?_ r hr
    rcases hs.visits_or with hs | ⟨q, content, c, hcontent, hc, hs⟩
    · exact hs.mem_subtrees
    · exact mem_subtrees_of_content? hcontent hc hs
  named p target hp _ := by
    refine hnamed p ?_
    rcases hp with hp | ⟨q, other, content, -, -, hcontent, c, hc, hp⟩
    · exact hp.mem_subtrees
    · exact mem_subtrees_of_content? (r := .pattern other) hcontent hc hp

theorem not_pattern (h : Expandable schema)
    (hcontent : (Abstractions.ofSchema schema).content? r = some content) (hc : c ∈ content)
    (hs : Visits c s) : ¬ isTerm s "pattern" := by
  obtain ⟨t, ht, hterm, rfl⟩ := exists_of_content? hcontent
  exact h.apart t (Tree.mem_subtrees.2 (.inr ht)) hterm s
    (Tree.mem_descendants.2 ⟨c, hc, hs.mem_subtrees⟩)

/-- Where no pattern stands, only abstract rules are referred to. -/
theorem exists_rule_of_mentions (hpattern : ∀ s, Visits c s → ¬ isTerm s "pattern")
    (hr : Mentions c r) : ∃ id, r = .rule id := by
  obtain ⟨s, hs, hr⟩ := hr
  cases r with
  | rule id => exact ⟨id, rfl⟩
  | pattern id =>
    exact absurd (isTerm_of_instanceOf? (refersTo?_pattern_iff.1 hr)) (hpattern s hs)

theorem exists_rule_of_edge (h : Expandable schema)
    (hedge : Edge (Abstractions.ofSchema schema) r q) : ∃ id, q = .rule id := by
  obtain ⟨content, hcontent, c, hc, hq⟩ := hedge
  exact exists_rule_of_mentions (fun s => h.not_pattern hcontent hc) hq

theorem reflTransGen_rule (h : Expandable schema) {id : String}
    (hq : Relation.ReflTransGen (Edge (Abstractions.ofSchema schema)) (.rule id) q) :
    ∃ s, q = .rule s ∧
      Relation.ReflTransGen (RuleEdge (Abstractions.ofSchema schema)) id s := by
  induction hq with
  | refl => exact ⟨id, rfl, .refl⟩
  | tail _ hedge ih =>
    obtain ⟨s, rfl, hs⟩ := ih
    obtain ⟨next, rfl⟩ := h.exists_rule_of_edge hedge
    exact ⟨next, rfl, hs.tail (edge_rule_iff.1 hedge)⟩

theorem transGen_rule (h : Expandable schema)
    (hq : Relation.TransGen (Edge (Abstractions.ofSchema schema)) q q) :
    ∃ s, q = .rule s ∧ Relation.TransGen (RuleEdge (Abstractions.ofSchema schema)) s s := by
  obtain ⟨last, hlater, hedge⟩ := Relation.TransGen.tail'_iff.1 hq
  obtain ⟨s, rfl⟩ := h.exists_rule_of_edge hedge
  obtain ⟨before, rfl, hbefore⟩ := h.reflTransGen_rule hlater
  exact ⟨s, rfl, .tail' hbefore (edge_rule_iff.1 hedge)⟩

theorem resolved (h : Expandable schema) : Resolved (Abstractions.ofSchema schema) schema := by
  -- An instance of a pattern is never in content that a reference leads to.
  have hvisits : ∀ p target, Reached (Abstractions.ofSchema schema) schema p →
      instanceOf? p = some target → Visits schema p := by
    intro p target hp hinstance
    refine hp.visits_or.resolve_right ?_
    rintro ⟨q, content, c, hcontent, hc, hs⟩
    exact h.not_pattern hcontent hc hs (isTerm_of_instanceOf? hinstance)
  refine ⟨h.known, fun p target hp hinstance => ?_, fun p target hp hinstance c hc r hr hlater => ?_⟩
  · exact h.named p target (.inl (hvisits p target hp hinstance)) hinstance
  · have hpattern : ∀ s, Visits c s → ¬ isTerm s "pattern" := fun s hs =>
      h.apart p (hvisits p target hp hinstance).mem_subtrees
        (.inl (isTerm_of_instanceOf? hinstance)) s
        (Tree.mem_descendants.2 ⟨c, mem_children_of_walked hc, hs.mem_subtrees⟩)
    obtain ⟨id, rfl⟩ := exists_rule_of_mentions hpattern hr
    obtain ⟨s, hs, -⟩ := h.reflTransGen_rule hlater
    cases hs

theorem trouble_iff_circles (h : Expandable schema) :
    Trouble (Abstractions.ofSchema schema) [] schema ↔ Circles schema := by
  constructor
  · rintro ⟨r, hr, q, hrq, hq⟩
    obtain ⟨s, rfl, hs⟩ := h.transGen_rule (hq.resolve_left (List.not_mem_nil))
    cases r with
    | rule id =>
      obtain ⟨x, hx, hid⟩ := mentions_rule_iff.1 hr
      obtain ⟨last, hlast, hlater⟩ := h.reflTransGen_rule hrq
      cases hlast
      exact ⟨x, id, s, .inl hx, hid, hlater, hs⟩
    | pattern target =>
      obtain ⟨p, hp, htarget⟩ := hr
      rcases Relation.ReflTransGen.cases_head hrq with hrule | ⟨next, hedge, hrest⟩
      · cases hrule
      · obtain ⟨id, rfl⟩ := h.exists_rule_of_edge hedge
        obtain ⟨content, hcontent, c, hc, hmentions⟩ := hedge
        obtain ⟨x, hx, hid⟩ := mentions_rule_iff.1 hmentions
        obtain ⟨last, hlast, hlater⟩ := h.reflTransGen_rule hrest
        cases hlast
        exact ⟨x, id, s, .inr ⟨p, target, content, hp, refersTo?_pattern_iff.1 htarget, hcontent, c,
          hc, hx⟩, hid, hlater, hs⟩
  · rintro ⟨x, id, s, hx, hid, hlater, hs⟩
    have hlater' : Relation.ReflTransGen (Edge (Abstractions.ofSchema schema)) (.rule id) (.rule s) :=
      hlater.lift Abstraction.rule fun _ _ => edge_rule_iff.2
    have hs' : Relation.TransGen (Edge (Abstractions.ofSchema schema)) (.rule s) (.rule s) :=
      hs.lift Abstraction.rule fun _ _ => edge_rule_iff.2
    rcases hx with hx | ⟨p, target, content, hp, htarget, hcontent, c, hc, hx⟩
    · exact ⟨.rule id, mentions_rule_iff.2 ⟨x, hx, hid⟩, .rule s, hlater', .inr hs'⟩
    · have hedge : Edge (Abstractions.ofSchema schema) (.pattern target) (.rule id) :=
        ⟨content, hcontent, c, hc, mentions_rule_iff.2 ⟨x, hx, hid⟩⟩
      exact ⟨.pattern target, ⟨p, hp, refersTo?_pattern_iff.2 htarget⟩, .rule s,
        .head hedge hlater', .inr hs'⟩

end Expandable

/-- Expansion does not depend on what stands beyond one level more than there are abstract rules
and patterns. Where no pattern stands in a pattern or rule, references lead somewhere and
parameters are named, it fails with a circular reference if an abstract rule extended in what is
kept leads into a circle, and has a result otherwise. -/
theorem expansion_reports_circles (schema : Document) :
    (∀ bottom levels, (Abstractions.ofSchema schema.tree).size < levels →
      expand schema = ((expandAll (Abstractions.ofSchema schema.tree))^[levels] bottom [] []
        [schema.tree]).map Document.ofForest) ∧
    (Expandable schema.tree →
      ((∃ id, expand schema = .error (.circular id)) ↔ Circles schema.tree) ∧
      (¬ Circles schema.tree → ∃ d, expand schema = .ok d)) := by
  generalize ha : Abstractions.ofSchema schema.tree = a
  have hexpand : expand schema =
      (expandAt a (a.size + 1) [] [] [schema.tree]).map Document.ofForest := by
    rw [expand, ha]
    cases expandAt a (a.size + 1) [] [] [schema.tree] <;> rfl
  constructor
  · intro bottom levels hlevels
    obtain ⟨levels, rfl⟩ := Nat.exists_eq_add_one_of_ne_zero (Nat.ne_zero_of_lt hlevels)
    rw [hexpand, expandAt_eq_iterate, Function.iterate_succ_apply', Function.iterate_succ_apply']
    exact congrArg _ (expandAll_congr _ followed_nil (walk_agrees _ _ (by omega) (by omega)) [])
  · intro hexpandable
    have hresolved := hexpandable.resolved
    rw [ha] at hresolved
    have hdeeper : ReportsBeyond a 0 (expandAt a a.size) := expandAt_reports (by omega)
    have hforest := expandAll_reports [schema.tree] followed_nil hdeeper (by simpa using hresolved) []
    have hreports : Reports (expand schema) (Circles schema.tree) := by
      rw [hexpand, expandAt]
      refine (hforest.map _).imp ?_
      rw [← hexpandable.trouble_iff_circles, ha]
      simp
    refine ⟨⟨?_, hreports.error⟩, hreports.ok⟩
    rintro ⟨id, hid⟩
    by_contra hnot
    obtain ⟨d, hd⟩ := hreports.ok hnot
    cases hid.symm.trans hd

/-- A schema with an instance of an abstract pattern in which two abstract rules are extended. Both
of them extend a third one, of which the content is given. -/
def branchingSchema (core : List Tree) : Document :=
  Document.ofForest [schemaElement "schema" [] [
    schemaElement "pattern" [("abstract", "true"), ("id", "sums")] [
      schemaElement "rule" [("context", "$of")] [
        schemaElement "extends" [("rule", "left")] [],
        schemaElement "extends" [("rule", "right")] []]],
    schemaElement "pattern" [("is-a", "sums")] [
      schemaElement "param" [("name", "of"), ("value", "item")] []],
    schemaElement "rule" [("abstract", "true"), ("id", "left")] [
      schemaElement "extends" [("rule", "core")] []],
    schemaElement "rule" [("abstract", "true"), ("id", "right")] [
      schemaElement "extends" [("rule", "core")] []],
    schemaElement "rule" [("abstract", "true"), ("id", "core")] core]]

/-- The schema in which the third rule holds a check. -/
def checkedSchema : Document :=
  branchingSchema [schemaElement "assert" [("test", "@price")] []]

/-- The schema in which the third rule extends one of those that extend it. -/
def loopedSchema : Document :=
  branchingSchema [schemaElement "extends" [("rule", "left")] []]

/-- A rule that is extended along two branches makes no circle by itself. -/
theorem expansion_reports_circles_of_branching :
    (Expandable checkedSchema.tree ∧ ¬ Circles checkedSchema.tree ∧
      ∃ d, expand checkedSchema = .ok d) ∧
    (Expandable loopedSchema.tree ∧ Circles loopedSchema.tree ∧
      expand loopedSchema = .error (.circular "left")) := by
  have hchecked : Expandable checkedSchema.tree :=
    .of_subtrees (by decide +kernel) (by decide +kernel) (by decide +kernel)
  have hlooped : Expandable loopedSchema.tree :=
    .of_subtrees (by decide +kernel) (by decide +kernel) (by decide +kernel)
  have hok : ∃ d, expand checkedSchema = .ok d := ⟨_, rfl⟩
  have herror : expand loopedSchema = .error (.circular "left") := rfl
  refine ⟨⟨hchecked, fun hcircles => ?_, hok⟩, hlooped, ?_, herror⟩
  · obtain ⟨d, hd⟩ := hok
    obtain ⟨id, hid⟩ := ((expansion_reports_circles checkedSchema).2 hchecked).1.2 hcircles
    exact nomatch hd.symm.trans hid
  · exact ((expansion_reports_circles loopedSchema).2 hlooped).1.1 ⟨"left", herror⟩

end Schema

end MarkupRules
