/-
# Expressions as patterns

A pattern matches the nodes that an expression selects from anywhere in the document. It becomes
a selection from the document node: a path relative to the context is read from every node, and
a union is taken apart. Other expressions select the same nodes from everywhere and stay as they
are.

Key definitions: `Expr.anchored`, `Query.asPattern`, `Query.compilePattern`.
-/
import MarkupRules.Query.Parser

namespace MarkupRules.Query

/-- The selection of all nodes that an expression matches. -/
def Expr.anchored : Expr → Expr
  | .union left right => .union left.anchored right.anchored
  | .path .context steps => .path .root (Step.anywhere :: steps)
  | e => e

/-- The pattern of an expression; the text stays as written. -/
def asPattern (q : Query) : Query :=
  { q with expr := q.expr.anchored }

/-- The pattern that a text stands for in a context. -/
def compilePattern (source : String) (context : Context) : Except QueryError Query :=
  (compile source context).map asPattern

end MarkupRules.Query
