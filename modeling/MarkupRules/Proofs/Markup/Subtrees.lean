/-
# The trees inside a tree

Being inside is transitive. What stands at the top of a tree inside one that is taken out of a
document is a node of the document.

Key theorems: `Tree.mem_subtrees`, `Tree.subtrees_trans`, `Document.payload_of_mem_subtrees`.
-/
import MarkupRules.Markup.Tree

namespace MarkupRules.Markup

namespace Tree

theorem mem_subtreesOfAll {s : Tree} : ∀ {ts : List Tree},
    s ∈ subtreesOfAll ts ↔ ∃ t ∈ ts, s ∈ t.subtrees
  | [] => by simp [subtreesOfAll]
  | t :: ts => by
    rw [subtreesOfAll, List.mem_append, @mem_subtreesOfAll s ts]
    simp

theorem mem_descendants {s t : Tree} : s ∈ t.descendants ↔ ∃ c ∈ t.children, s ∈ c.subtrees :=
  mem_subtreesOfAll

theorem mem_subtrees {s t : Tree} : s ∈ t.subtrees ↔ s = t ∨ s ∈ t.descendants := by
  obtain ⟨p, ts⟩ := t
  rw [subtrees, List.mem_cons]
  rfl

theorem self_mem_subtrees (t : Tree) : t ∈ t.subtrees :=
  mem_subtrees.2 (.inl rfl)

mutual

theorem subtrees_trans {s u : Tree} (hu : u ∈ s.subtrees) :
    ∀ t : Tree, s ∈ t.subtrees → u ∈ t.subtrees
  | .node _ ts, hs => by
    rcases mem_subtrees.1 hs with rfl | hs
    · exact hu
    · exact mem_subtrees.2 (.inr (subtreesOfAll_trans hu ts hs))

theorem subtreesOfAll_trans {s u : Tree} (hu : u ∈ s.subtrees) :
    ∀ ts : List Tree, s ∈ subtreesOfAll ts → u ∈ subtreesOfAll ts
  | [], hs => nomatch hs
  | t :: ts, hs => by
    rw [subtreesOfAll, List.mem_append] at hs ⊢
    exact hs.imp (subtrees_trans hu t) (subtreesOfAll_trans hu ts)

end

end Tree

theorem Document.payload_of_mem_subtreeDeep {d : Document} {s : Tree} : ∀ {levels n : Nat},
    s ∈ (d.subtreeDeep levels n).subtrees → ∃ m, s.payload = d.payload m
  | 0, n, hs => by
    rw [subtreeDeep, Tree.subtrees, Tree.subtreesOfAll, List.mem_singleton] at hs
    exact ⟨n, by rw [hs, Tree.payload]⟩
  | levels + 1, n, hs => by
    rcases Tree.mem_subtrees.1 hs with rfl | hs
    · exact ⟨n, rfl⟩
    · obtain ⟨c, hc, hs⟩ := Tree.mem_descendants.1 hs
      obtain ⟨m, -, rfl⟩ := List.mem_map.1 hc
      exact payload_of_mem_subtreeDeep hs

/-- At the top of a tree inside a tree of a document stands a node of the document. -/
theorem Document.payload_of_mem_subtrees {d : Document} {n : NodeId} {s : Tree}
    (hs : s ∈ (d.subtree n).subtrees) : ∃ m, s.payload = d.payload m :=
  payload_of_mem_subtreeDeep hs

end MarkupRules.Markup
