/-
# Forests that are planted as they are

A forest in which no character data stands next to character data, and nothing below character
data, is planted as it is. Planting makes such a forest of any other one, so planting what was
planted changes nothing. Neither does it change elements: where the elements of a forest are of
some kind and nothing stands below other nodes, this is so of the planted forest.

Key definitions: `Tree.Apart`, `Tree.Firm`, `Tree.OfElements`.

Key theorems: `settleAll_of_firm`, `settleAll_settleAll`, `ofElements_settleAll`,
`TextsApart.firm_forest`, `Shaped.settleAll_forest`, `Shaped.ofElements_forest`.
-/
import Mathlib.Data.List.Chain
import MarkupRules.Proofs.Markup.Subtrees
import MarkupRules.Proofs.Markup.Unlabelled

namespace MarkupRules.Markup

namespace Tree

/-! ### Texts apart -/

/-- Whether a tree is character data. -/
def isText (t : Tree) : Bool :=
  match t.payload with
  | .text _ => true
  | _ => false

/-- No character data stands next to character data. -/
def Apart (ts : List Tree) : Prop :=
  ts.IsChain fun a b => ¬ (a.isText ∧ b.isText)

/-- Nothing changes in a tree when it is planted: it is no document node, nothing is below character
data, and below everything else no character data stands next to character data. -/
inductive Firm : Tree → Prop where
  /-- A node with what is below it. -/
  | node {x : Payload} {ts : List Tree} (hdocument : x ≠ .document)
    (hleaf : ∀ s, x = .text s → ts = []) (happart : Apart ts) (hts : ∀ t ∈ ts, Firm t) :
    Firm (.node x ts)

variable {t u : Tree} {ts us done : List Tree}

theorem firm_text (s : String) : Firm (.node (.text s) []) :=
  .node (by simp) (fun _ _ => rfl) .nil (by simp)

/-- Behind anything but a text, character data is a text of its own. -/
theorem joinText_of_not_isText {s : String} (h : ∀ a ∈ done.getLast?, ¬ a.isText) :
    joinText done s = done ++ [.node (.text s) []] :=
  joinText_eq_concat fun _ _ hlast => h _ hlast rfl

/-- What is neither a document node nor character data stands behind what is there. -/
theorem settle_node {x : Payload} (hdocument : x ≠ .document) (htext : ∀ s, x ≠ .text s)
    (done ts : List Tree) : settle done (.node x ts) = done ++ [.node x (settleAll [] ts)] := by
  cases x with
  | document => exact absurd rfl hdocument
  | text s => exact absurd rfl (htext s)
  | element e => simp [settle]
  | comment s => simp [settle]
  | instruction target s => simp [settle]

mutual

/-- A firm tree is planted as it is, unless it is character data behind character data. -/
theorem settle_of_firm : ∀ (t : Tree) {done : List Tree}, Firm t →
    (∀ a ∈ done.getLast?, ¬ (a.isText ∧ t.isText)) → settle done t = done ++ [t]
  | .node x ts, done, .node hdocument hleaf happart hts, hdone => by
    by_cases htext : ∃ s, x = .text s
    · obtain ⟨s, rfl⟩ := htext
      obtain rfl := hleaf s rfl
      exact joinText_of_not_isText fun a ha htext => hdone a ha ⟨htext, rfl⟩
    · have hbelow : settleAll [] ts = [] ++ ts := settleAll_of_firm ts hts happart (by simp)
      rw [settle_node hdocument (fun s hs => htext ⟨s, hs⟩), hbelow, List.nil_append]

theorem settleAll_of_firm : ∀ (ts : List Tree) {done : List Tree}, (∀ t ∈ ts, Firm t) → Apart ts →
    (∀ a ∈ done.getLast?, ∀ b ∈ ts.head?, ¬ (a.isText ∧ b.isText)) →
    settleAll done ts = done ++ ts
  | [], done, _, _, _ => (List.append_nil done).symm
  | t :: ts, done, hfirm, happart, hdone => by
    obtain ⟨ht, hts⟩ := List.forall_mem_cons.1 hfirm
    have hnext : ∀ a ∈ (done ++ [t]).getLast?, ∀ b ∈ ts.head?, ¬ (a.isText ∧ b.isText) := by
      intro a ha b hb
      obtain rfl : t = a := by simpa using ha
      exact (List.isChain_cons.1 happart).1 b hb
    rw [settleAll, settle_of_firm t ht fun a ha => hdone a ha t rfl,
      settleAll_of_firm ts hts happart.tail hnext, List.append_assoc, List.singleton_append]

end

/-! ### Planting makes firm forests -/

/-- What stands at the end may be replaced by something that is character data only if it is. -/
theorem Apart.replace (h : Apart (done ++ [t])) (hu : u.isText → t.isText) :
    Apart (done ++ [u]) := by
  obtain ⟨hdone, -, hlast⟩ := List.isChain_append.1 h
  refine hdone.append (.singleton u) fun a ha b hb hboth => ?_
  obtain rfl : u = b := by simpa using hb
  exact hlast a ha t rfl ⟨hboth.1, hu hboth.2⟩

theorem Apart.concat (h : Apart done) (ht : ∀ a ∈ done.getLast?, ¬ (a.isText ∧ t.isText)) :
    Apart (done ++ [t]) := by
  refine h.append (.singleton t) fun a ha b hb => ?_
  obtain rfl : t = b := by simpa using hb
  exact ht a ha

theorem firm_joinText {s : String} (hdone : ∀ t ∈ done, Firm t) (happart : Apart done) :
    (∀ t ∈ joinText done s, Firm t) ∧ Apart (joinText done s) := by
  by_cases hlast : ∃ a ∈ done.getLast?, a.isText
  · obtain ⟨a, ha, htext⟩ := hlast
    obtain ⟨before, rfl⟩ := List.getLast?_eq_some_iff.1 ha
    obtain ⟨⟨x, below⟩, rfl⟩ : ∃ b, a = b := ⟨a, rfl⟩
    obtain ⟨t, rfl⟩ : ∃ t, x = .text t := by
      cases x <;> simp_all [isText, payload]
    obtain ⟨hbefore, ha⟩ := List.forall_mem_append.1 hdone
    obtain ⟨-, hleaf, -, -⟩ := ha _ List.mem_cons_self
    obtain rfl := hleaf t rfl
    rw [joinText_concat]
    exact ⟨List.forall_mem_append.2 ⟨hbefore, List.forall_mem_singleton.2 (firm_text _)⟩,
      happart.replace fun _ => rfl⟩
  · have hnot : ∀ a ∈ done.getLast?, ¬ a.isText := fun a ha htext => hlast ⟨a, ha, htext⟩
    rw [joinText_of_not_isText hnot]
    exact ⟨List.forall_mem_append.2 ⟨hdone, List.forall_mem_singleton.2 (firm_text s)⟩,
      happart.concat fun a ha hboth => hnot a ha hboth.1⟩

mutual

theorem firm_settle : ∀ (t : Tree) {done : List Tree}, (∀ u ∈ done, Firm u) → Apart done →
    (∀ u ∈ settle done t, Firm u) ∧ Apart (settle done t)
  | .node x ts, done, hdone, happart => by
    obtain ⟨hbelow, hbelowApart⟩ : (∀ u ∈ settleAll [] ts, Firm u) ∧ Apart (settleAll [] ts) :=
      firm_settleAll ts (by simp) .nil
    by_cases hdocument : x = .document
    · subst hdocument
      exact firm_settleAll ts hdone happart
    · by_cases htext : ∃ s, x = .text s
      · obtain ⟨s, rfl⟩ := htext
        exact firm_joinText hdone happart
      · have hnot : ∀ s, x ≠ .text s := fun s hs => htext ⟨s, hs⟩
        have hfirm : Firm (.node x (settleAll [] ts)) :=
          .node hdocument (fun s hs => absurd hs (hnot s)) hbelowApart hbelow
        have hplain : ¬ (Tree.node x (settleAll [] ts)).isText := by
          cases x <;> simp_all [isText, payload]
        rw [settle_node hdocument hnot]
        exact ⟨List.forall_mem_append.2 ⟨hdone, List.forall_mem_singleton.2 hfirm⟩,
          happart.concat fun a ha hboth => hplain hboth.2⟩

theorem firm_settleAll : ∀ (ts : List Tree) {done : List Tree}, (∀ u ∈ done, Firm u) →
    Apart done → (∀ u ∈ settleAll done ts, Firm u) ∧ Apart (settleAll done ts)
  | [], _, hdone, happart => ⟨hdone, happart⟩
  | t :: ts, done, hdone, happart => by
    obtain ⟨hnext, hnextApart⟩ := firm_settle t hdone happart
    exact firm_settleAll ts hnext hnextApart

end

/-- What was planted is planted as it is. -/
theorem settleAll_settleAll (ts : List Tree) :
    settleAll [] (settleAll [] ts) = settleAll [] ts := by
  obtain ⟨hfirm, happart⟩ : (∀ u ∈ settleAll [] ts, Firm u) ∧ Apart (settleAll [] ts) :=
    firm_settleAll ts (by simp) .nil
  exact settleAll_of_firm _ hfirm happart (by simp)

/-! ### Forests of elements of a kind -/

/-- The elements of a tree are of some kind, and there is nothing below its other nodes, none of
which is a document node. -/
inductive OfElements (P : Element → Prop) : Tree → Prop where
  /-- An element. -/
  | element {e : Element} {ts : List Tree} (he : P e) (hts : ∀ t ∈ ts, OfElements P t) :
    OfElements P (.node (.element e) ts)
  /-- Character data, a comment or a processing instruction. -/
  | leaf {x : Payload} (hdocument : x ≠ .document) (helement : ∀ e, x ≠ .element e) :
    OfElements P (.node x [])

variable {P : Element → Prop}

theorem ofElements_leaf {x : Payload} (hdocument : x ≠ .document) (helement : ∀ e, x ≠ .element e) :
    ∀ t ∈ [node x []], OfElements P t :=
  List.forall_mem_singleton.2 (.leaf hdocument helement)

/-- The elements inside such a tree are of the kind. -/
theorem OfElements.of_mem_subtrees (h : OfElements P t) {s : Tree} (hs : s ∈ t.subtrees)
    {e : Element} (he : e ∈ s.element?) : P e := by
  induction h with
  | @element d ts hd _ ih =>
    rcases mem_subtrees.1 hs with rfl | hs
    · obtain rfl := Option.some.inj (show some d = some e from he)
      exact hd
    · obtain ⟨c, hc, hs⟩ := mem_descendants.1 hs
      exact ih c hc hs
  | @leaf x hdocument helement =>
    rcases mem_subtrees.1 hs with rfl | hs
    · cases x <;> simp_all [element?, payload]
    · exact nomatch hs

theorem ofElements_text (s : String) : OfElements P (.node (.text s) []) :=
  .leaf (by simp) (by simp)

theorem ofElements_joinText {s : String} (hdone : ∀ t ∈ done, OfElements P t) :
    ∀ t ∈ joinText done s, OfElements P t := by
  by_cases hlast : ∃ a ∈ done.getLast?, a.isText
  · obtain ⟨a, ha, htext⟩ := hlast
    obtain ⟨before, rfl⟩ := List.getLast?_eq_some_iff.1 ha
    obtain ⟨hbefore, ha⟩ := List.forall_mem_append.1 hdone
    cases ha a List.mem_cons_self with
    | element => simp [isText, payload] at htext
    | @leaf x hdocument helement =>
      obtain ⟨t, rfl⟩ : ∃ t, x = .text t := by
        cases x <;> simp_all [isText, payload]
      rw [joinText_concat]
      exact List.forall_mem_append.2 ⟨hbefore, List.forall_mem_singleton.2 (ofElements_text _)⟩
  · rw [joinText_of_not_isText fun a ha htext => hlast ⟨a, ha, htext⟩]
    exact List.forall_mem_append.2 ⟨hdone, List.forall_mem_singleton.2 (ofElements_text s)⟩

theorem ofElements_settle (h : OfElements P t) {done : List Tree}
    (hdone : ∀ u ∈ done, OfElements P u) : ∀ u ∈ settle done t, OfElements P u := by
  induction h generalizing done with
  | @element e ts he hts ih =>
    have hall : ∀ (us done : List Tree), us ⊆ ts → (∀ u ∈ done, OfElements P u) →
        ∀ u ∈ settleAll done us, OfElements P u := by
      intro us
      induction us with
      | nil => exact fun done _ hdone => hdone
      | cons u us ihus =>
        intro done hsub hdone
        obtain ⟨hu, hus⟩ := List.cons_subset.1 hsub
        exact ihus (settle done u) hus (ih u hu hdone)
    rw [settle_node (by simp) (by simp)]
    have hbelow : ∀ u ∈ settleAll [] ts, OfElements P u :=
      hall ts [] (List.Subset.refl _) (by simp)
    exact List.forall_mem_append.2 ⟨hdone, List.forall_mem_singleton.2 (.element he hbelow)⟩
  | @leaf x hdocument helement =>
    by_cases htext : ∃ s, x = .text s
    · obtain ⟨s, rfl⟩ := htext
      exact ofElements_joinText hdone
    · rw [settle_node hdocument fun s hs => htext ⟨s, hs⟩]
      exact List.forall_mem_append.2 ⟨hdone, List.forall_mem_singleton.2 (.leaf hdocument helement)⟩

/-- Planting keeps the kind of the elements. -/
theorem ofElements_settleAll : ∀ {ts done : List Tree}, (∀ t ∈ ts, OfElements P t) →
    (∀ u ∈ done, OfElements P u) → ∀ u ∈ settleAll done ts, OfElements P u
  | [], _, _, hdone => hdone
  | t :: rest, done, hall, hdone => by
    obtain ⟨ht, hrest⟩ := List.forall_mem_cons.1 hall
    rw [settleAll]
    exact ofElements_settleAll hrest (ofElements_settle ht hdone)

end Tree

namespace Document

/-- The locator of a document has no part in its tree. -/
theorem Linked.tree_withOrigin {d : Document} (h : d.Linked) (origin : Option String) :
    (d.withOrigin origin).tree = d.tree :=
  h.subtree_congr (h.withOrigin origin) (fun _ _ => rfl) fun _ _ => rfl

theorem Linked.isText_subtree {d : Document} (h : d.Linked) (n : NodeId) :
    (d.subtree n).isText = d.isText n := by
  rw [h.subtree_eq]
  rfl

/-- Of what was planted, the same tree grows again. -/
theorem tree_ofForest_settleAll (ts : List Tree) :
    (ofForest (Tree.settleAll [] ts)).tree = (ofForest ts).tree := by
  rw [tree_ofForest, tree_ofForest, Tree.settleAll_settleAll]

/-- The elements of a planted forest are of the kind. -/
theorem of_mem_tree_ofForest {P : Element → Prop} {ts : List Tree}
    (h : ∀ t ∈ ts, Tree.OfElements P t) :
    ∀ s ∈ (ofForest ts).tree.subtrees, ∀ e ∈ s.element?, P e := by
  intro s hs e he
  rw [tree_ofForest] at hs
  rcases Tree.mem_subtrees.1 hs with rfl | hs
  · cases he
  · obtain ⟨t, ht, hs⟩ := Tree.mem_descendants.1 hs
    exact (Tree.ofElements_settleAll h (by simp) t ht).of_mem_subtrees hs he

section Leaves

variable {d : Document}

theorem TextsApart.apart_forest (h : d.TextsApart) (hlinked : d.Linked) (n : NodeId) :
    Tree.Apart (d.forest n) := by
  refine (List.isChain_map d.subtree).2 ((h n).imp fun a b hab => ?_)
  rwa [hlinked.isText_subtree, hlinked.isText_subtree]

/-- Where texts stand apart and nothing is below them, nothing changes in the trees when they are
planted. -/
theorem TextsApart.firm_forest (h : d.TextsApart) (hlinked : d.Linked) (hrooted : d.Rooted)
    (hleaves : d.TextLeaves) (n : NodeId) : ∀ t ∈ d.forest n, Tree.Firm t := by
  induction n using hlinked.induction_below with
  | step n ih =>
    intro t ht
    obtain ⟨c, hc, rfl⟩ := List.mem_map.1 ht
    have hlt := hlinked.mem_children_lt hc
    have hne : c ≠ root := Nat.ne_of_gt (Nat.lt_of_le_of_lt (Nat.zero_le n) hlt.1)
    rw [hlinked.subtree_eq]
    refine .node (hrooted c hlt.2 hne) (fun s hs => ?_) (h.apart_forest hlinked c) (ih c hc)
    rw [hleaves c (isText_iff.2 ⟨s, hs⟩), List.map_nil]

end Leaves

namespace Shaped

variable {d : Document}

/-- The trees of a document stand below a document node. -/
theorem tree_eq (h : d.Shaped) (hlinked : d.Linked) :
    d.tree = .node .document (d.forest root) := by
  rw [tree, hlinked.subtree_eq, h.top, forest]

theorem settleAll_forest (h : d.Shaped) (hlinked : d.Linked) (hrooted : d.Rooted) (n : NodeId) :
    Tree.settleAll [] (d.forest n) = d.forest n :=
  Tree.settleAll_of_firm _ (TextsApart.firm_forest h.apart hlinked hrooted h.textLeaves n)
    (TextsApart.apart_forest h.apart hlinked n) (by simp)

/-- Where the nodes stand as those of a text do, the trees grow again as they are. -/
theorem tree_ofForest_forest (h : d.Shaped) (hlinked : d.Linked) (hrooted : d.Rooted) :
    (ofForest (d.forest root)).tree = d.tree := by
  rw [tree_ofForest, h.settleAll_forest hlinked hrooted, h.tree_eq hlinked]

/-- Where the nodes stand as those of a text do, a document is a forest of its elements. -/
theorem ofElements_forest (h : d.Shaped) (hlinked : d.Linked)
    (hrooted : d.Rooted) {P : Element → Prop} {n : NodeId}
    (helements : ∀ s ∈ (d.subtree n).descendants, ∀ e ∈ s.element?, P e) :
    ∀ t ∈ d.forest n, Tree.OfElements P t := by
  induction n using hlinked.induction_below with
  | step n ih =>
    intro t ht
    obtain ⟨c, hc, rfl⟩ := List.mem_map.1 ht
    have hlt := hlinked.mem_children_lt hc
    have hne : c ≠ root := Nat.ne_of_gt (Nat.lt_of_le_of_lt (Nat.zero_le n) hlt.1)
    -- What is below a child is below the node, so that the assumption is passed on.
    have hinside : ∀ s ∈ (d.subtree c).subtrees, s ∈ (d.subtree n).descendants := fun s hs => by
      rw [hlinked.subtree_eq n]
      exact Tree.mem_descendants.2 ⟨d.subtree c, List.mem_map_of_mem hc, hs⟩
    have hbelow : ∀ t ∈ d.forest c, Tree.OfElements P t :=
      ih c hc fun s hs => helements s (hinside s (Tree.mem_subtrees.2 (.inr hs)))
    have hnode : d.subtree c = .node (d.payload c) (d.forest c) := hlinked.subtree_eq c
    by_cases helement : ∃ e, d.payload c = .element e
    · obtain ⟨e, he⟩ := helement
      have hP : P e := by
        refine helements _ (hinside _ (d.subtree c).self_mem_subtrees) e ?_
        rw [hnode, he]
        rfl
      rw [hnode, he]
      exact .element hP hbelow
    · have hnone : d.element? c = none := by
        rw [Option.eq_none_iff_forall_ne_some]
        exact fun e he => helement ⟨e, element?_eq_some_iff.1 he⟩
      rw [hnode, forest, h.children_eq_nil hne hnone]
      exact .leaf (hrooted c hlt.2 hne) fun e he => helement ⟨e, he⟩

end Shaped

end Document

end MarkupRules.Markup
