/-
# Documents but for their labels

Two documents say the same if their trees agree but for the labels in names and the bindings that
go with them. Labels have no part in how a forest is planted. The nodes of a document stand as those
of a text do if nothing is below character data or a remark, and no character data follows character
data; this remains so where character data joins a text in front of it.

Key definitions: `Tree.unlabelled`, `Document.TextsApart`, `Document.TextLeaves`,
`Document.Shaped`.

Key theorems: `unlabelled_settleAll`, `apart_push`, `apart_modifyPayload`.
-/
import Mathlib.Data.List.Chain
import MarkupRules.Proofs.Markup.Rooted

namespace MarkupRules.Markup

/-! ### Names without labels -/

/-- A name without its label. -/
def Name.unlabelled (n : Name) : Name :=
  ⟨n.uri, none, n.localPart⟩

/-- What an element is, however its names are written. -/
def Element.unlabelled (e : Element) : Element :=
  ⟨e.name.unlabelled, e.attributes.map fun a => ⟨a.name.unlabelled, a.value⟩, []⟩

/-- What a node is, however its names are written. -/
def Payload.unlabelled : Payload → Payload
  | .element e => .element e.unlabelled
  | other => other

namespace Tree

mutual

/-- A tree with all its names without their labels, and with no bindings. -/
def unlabelled : Tree → Tree
  | .node payload ts => .node payload.unlabelled (unlabelledAll ts)

/-- The trees of a forest with all their names without their labels, and with no bindings. -/
def unlabelledAll : List Tree → List Tree
  | [] => []
  | t :: ts => unlabelled t :: unlabelledAll ts

end

theorem unlabelledAll_eq_map (ts : List Tree) : unlabelledAll ts = ts.map unlabelled := by
  induction ts with
  | nil => rfl
  | cons t ts ih => rw [unlabelledAll, ih, List.map_cons]

theorem unlabelled_joinText (done : List Tree) (s : String) :
    (joinText done s).map unlabelled = joinText (done.map unlabelled) s := by
  rcases done.eq_nil_or_concat' with rfl | ⟨before, ⟨payload, below⟩, rfl⟩
  · rfl
  · by_cases htext : ∃ t, payload = .text t
    · obtain ⟨t, rfl⟩ := htext
      rw [joinText_concat, List.map_append, List.map_append]
      exact (joinText_concat _ _ _ _).symm
    · have hlast : ∀ t, payload ≠ .text t := fun t ht => htext ⟨t, ht⟩
      have hlast' : ∀ t, payload.unlabelled ≠ .text t := by
        cases payload <;> simp_all [Payload.unlabelled]
      rw [joinText_eq_concat (by simp [hlast]),
        joinText_eq_concat (by simp [unlabelled, hlast']), List.map_append]
      rfl

mutual

/-- Labels have no part in how a tree is planted. -/
theorem unlabelled_settle : ∀ (t : Tree) (done : List Tree),
    (settle done t).map unlabelled = settle (done.map unlabelled) t.unlabelled
  | .node payload ts, done => by
    have hbelow : (settleAll [] ts).map unlabelled = settleAll [] (unlabelledAll ts) :=
      unlabelled_settleAll ts []
    have hnode : ∀ x : Payload, (done ++ [Markup.Tree.node x (settleAll [] ts)]).map unlabelled =
        done.map unlabelled ++
          [Markup.Tree.node x.unlabelled (settleAll [] (unlabelledAll ts))] := by
      intro x
      rw [List.map_append, List.map_singleton, unlabelled, unlabelledAll_eq_map, hbelow]
    cases payload with
    | text s => exact unlabelled_joinText done s
    | document => exact unlabelled_settleAll ts done
    | element e => exact hnode _
    | comment s => exact hnode _
    | instruction target s => exact hnode _

theorem unlabelled_settleAll : ∀ (ts done : List Tree),
    (settleAll done ts).map unlabelled = settleAll (done.map unlabelled) (unlabelledAll ts)
  | [], done => rfl
  | t :: ts, done => by
    rw [settleAll, unlabelledAll, settleAll, ← unlabelled_settle t done]
    exact unlabelled_settleAll ts _

end

end Tree

/-! ### Documents that stand as texts have them -/

namespace Document

/-- No character data stands next to character data. -/
def TextsApart (d : Document) : Prop :=
  ∀ n, (d.children n).IsChain fun a b => ¬ (d.isText a ∧ d.isText b)

/-- Nothing is below character data. -/
def TextLeaves (d : Document) : Prop :=
  ∀ n, d.isText n → d.children n = []

/-- The nodes of a document stand as those of a text do. -/
structure Shaped (d : Document) : Prop where
  /-- The first node is the document node. -/
  top : d.payload root = .document
  /-- Only the document node and elements have anything below them. -/
  branch : ∀ n, d.children n ≠ [] → n = root ∨ (d.element? n).isSome
  /-- No character data stands next to character data. -/
  apart : ∀ n, (d.children n).IsChain fun a b => ¬ (d.isText a ∧ d.isText b)

variable {d : Document}

theorem isText_push_of_lt {p n : NodeId} {x : Payload} (hn : n < d.size) :
    (d.push p x).1.isText n = d.isText n := by
  rw [isText, payload_push, if_neg (Nat.ne_of_lt hn), isText]

/-- Where a node is added that is no character data or stands behind other nodes, texts stay
apart. -/
theorem apart_push (h : d.Linked) {p : NodeId} (hp : p < d.size) {x : Payload}
    (hapart : d.TextsApart)
    (hlast : ∀ s, x = .text s → ∀ n ∈ d.lastChild? p, d.isText n = false) :
    (d.push p x).1.TextsApart := by
  intro n
  have hold : ∀ m, (d.children m).IsChain fun a b =>
      ¬ ((d.push p x).1.isText a ∧ (d.push p x).1.isText b) := by
    intro m
    refine (hapart m).imp_of_mem_imp fun a b ha hb hab => ?_
    rwa [isText_push_of_lt (h.mem_children_lt ha).2, isText_push_of_lt (h.mem_children_lt hb).2]
  rw [children_push hp]
  split
  · refine (hold p).append (.singleton _) fun a ha b hb hboth => ?_
    obtain rfl : d.size = b := by simpa using hb
    obtain ⟨s, hs⟩ := isText_iff.1 hboth.2
    rw [payload_push, if_pos rfl] at hs
    rw [← lastChild?_eq] at ha
    have ha' : a ∈ d.children p := List.mem_of_getLast? (lastChild?_eq d p ▸ ha)
    rw [isText_push_of_lt (h.mem_children_lt ha').2, hlast s hs a ha] at hboth
    exact Bool.false_ne_true hboth.1
  · exact hold n

theorem isText_modifyPayload {n m : NodeId} {f : Payload → Payload}
    (hf : ∀ x, (∃ s, f x = .text s) ↔ ∃ s, x = .text s) (hm : m < d.size) :
    (d.modifyPayload n f).isText m = d.isText m := by
  rw [Bool.eq_iff_iff, isText_iff, isText_iff, payload_modifyPayload n m f hm]
  split
  · exact hf (d.payload m)
  · rfl

/-- Where nodes change but not from or to character data, texts stay apart. -/
theorem apart_modifyPayload (h : d.Linked) (hapart : d.TextsApart) (n : NodeId)
    {f : Payload → Payload} (hf : ∀ x, (∃ s, f x = .text s) ↔ ∃ s, x = .text s) :
    (d.modifyPayload n f).TextsApart := by
  intro m
  rw [children_modifyPayload]
  refine (hapart m).imp_of_mem_imp fun a b ha hb hab => ?_
  rwa [isText_modifyPayload hf (h.mem_children_lt ha).2,
    isText_modifyPayload hf (h.mem_children_lt hb).2]

theorem apart_extend (h : d.Linked) (hapart : d.TextsApart) (n : NodeId) (s : String) :
    (d.modifyPayload n (Payload.extend s)).TextsApart := by
  refine apart_modifyPayload h hapart n fun x => ?_
  cases x <;> simp [Payload.extend]

theorem element?_eq_some_iff {n : NodeId} {e : Element} :
    d.element? n = some e ↔ d.payload n = .element e := by
  unfold element?
  split
  · next x hx => simp [hx]
  · next hx => simpa using hx e

/-- There is nothing below character data and remarks. -/
theorem Shaped.children_eq_nil (h : d.Shaped) {n : NodeId} (hn : n ≠ root)
    (he : d.element? n = none) : d.children n = [] := by
  by_contra hne
  rcases h.branch n hne with hroot | hsome
  · exact hn hroot
  · simp [he] at hsome

theorem Shaped.textLeaves (h : d.Shaped) : d.TextLeaves := by
  intro n hn
  obtain ⟨s, hs⟩ := isText_iff.1 hn
  refine h.children_eq_nil ?_ (by rw [element?, hs])
  rintro rfl
  cases hs.symm.trans h.top

end Document

end MarkupRules.Markup
