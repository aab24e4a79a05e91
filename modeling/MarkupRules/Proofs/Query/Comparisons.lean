/-
# Comparisons read backwards

A comparison says the same with its sides exchanged, if the relation is turned round with them.
For numbers this is how doubles compare, with the ones that are no numbers among them; values that
are no sets are compared as numbers, truth values or texts, whichever of them stands on which side;
and sets of nodes compare through one node from each side.

Key definitions: `Comparison.converse`.

Key theorems: `compareNumbers_converse`, `Index.compareAtoms_converse`,
`Index.compareValues_converse`.
-/
import MarkupRules.Query.Convert
import Mathlib

namespace MarkupRules.Query

/-- The relation that holds with the sides exchanged. -/
def Comparison.converse : Comparison → Comparison
  | .eq => .eq
  | .ne => .ne
  | .lt => .gt
  | .le => .ge
  | .gt => .lt
  | .ge => .le

theorem Comparison.isEquality_converse (op : Comparison) :
    op.converse.isEquality = op.isEquality := by
  cases op <;> rfl

/-- Doubles are equal, less or greater whichever of them is named first; of one that is no number
and any other nothing holds but that they differ, on both sides. -/
theorem compareNumbers_converse (op : Comparison) (a b : Float) :
    compareNumbers op a b = compareNumbers op.converse b a := by
  cases op with
  | eq => exact BEq.comm
  | ne => exact congrArg not BEq.comm
  | lt | le | gt | ge => rfl

/-- It makes no difference which of two lists is searched first. -/
theorem any_any_comm {α β : Type} (p : α → β → Bool) (xs : List α) (ys : List β) :
    (xs.any fun x => ys.any fun y => p x y) = ys.any fun y => xs.any fun x => p x y := by
  rw [Bool.eq_iff_iff]
  simp only [List.any_eq_true]
  constructor
  · rintro ⟨x, hx, y, hy, hp⟩
    exact ⟨y, hy, x, hx, hp⟩
  · rintro ⟨y, hy, x, hx, hp⟩
    exact ⟨x, hx, y, hy, hp⟩

namespace Index

variable (ix : Index)

/-- What two values are compared as is decided by both of them alike. -/
theorem equalAtoms_comm (a b : Value) : ix.equalAtoms a b = ix.equalAtoms b a := by
  cases a <;> cases b <;> exact BEq.comm

theorem compareAtoms_converse (op : Comparison) (a b : Value) :
    ix.compareAtoms op a b = ix.compareAtoms op.converse b a := by
  cases op with
  | eq => exact ix.equalAtoms_comm a b
  | ne => exact congrArg not (ix.equalAtoms_comm a b)
  | lt => exact compareNumbers_converse .lt _ _
  | le => exact compareNumbers_converse .le _ _
  | gt => exact compareNumbers_converse .gt _ _
  | ge => exact compareNumbers_converse .ge _ _

theorem orderAtoms_converse (op : Comparison) (values : List Value) :
    ix.orderAtoms op.converse values = ix.orderAtoms op values := by
  rw [orderAtoms, orderAtoms, op.isEquality_converse]

/-- Through their nodes, if they are sets, two values compare with the sides exchanged as they
do. -/
theorem any_compareAtoms_converse (op : Comparison) (a b : Value) :
    ((ix.orderAtoms op (ix.atoms a)).any fun x =>
        (ix.orderAtoms op (ix.atoms b)).any fun y => ix.compareAtoms op x y) =
      (ix.orderAtoms op.converse (ix.atoms b)).any fun y =>
        (ix.orderAtoms op.converse (ix.atoms a)).any fun x =>
          ix.compareAtoms op.converse y x := by
  rw [any_any_comm, ix.orderAtoms_converse, ix.orderAtoms_converse]
  simp only [ix.compareAtoms_converse op]

/-- Whether a relation holds between two values, of whatever types, is whether its converse holds
between them the other way round. -/
theorem compareValues_converse (op : Comparison) (l r : Value) :
    ix.compareValues op l r = ix.compareValues op.converse r l := by
  -- Only a set against a truth value is not compared through its nodes.
  cases l <;> cases r
  case nodes.truth | truth.nodes => exact ix.compareAtoms_converse op _ _
  all_goals exact ix.any_compareAtoms_converse op _ _

end Index

end MarkupRules.Query
