/-
# Evaluation

The value of an expression at a focus. One level of evaluation is defined over an evaluator for
the expressions inside, and the evaluator stacks a fixed number of levels: an expression that is
nested deeper has no value.

Key definitions: `Evaluator`, `Index.evalLevel`, `Index.eval`, `Index.evaluate`, `Index.select`,
`Index.test`.
-/
import MarkupRules.Query.Function
import MarkupRules.Query.Parser

namespace MarkupRules.Query

/-- Gives expressions their values at a focus with variables. -/
abbrev Evaluator := Expr → Focus → Scope → Except QueryError Value

/-- Whether a predicate holds at a focus: a number holds at the position it names. -/
def holdsAt (focus : Focus) : Value → Bool
  | .number x => x == Decimal.ofNat focus.position
  | v => truthOf v

/-- The places of a list that pass a predicate, where `position` is the number of the first. -/
def keep (sub : Evaluator) (scope : Scope) (predicate : Expr) (size : Nat) :
    Nat → List Place → Except QueryError (List Place)
  | _, [] => .ok []
  | position, p :: rest => do
    let focus : Focus := ⟨p, position, size⟩
    let v ← sub predicate focus scope
    let more ← keep sub scope predicate size (position + 1) rest
    .ok (if holdsAt focus v then p :: more else more)

/-- The places of a list that pass predicates, which apply one after the other and count
positions in what the earlier ones left. -/
def keepAll (sub : Evaluator) (scope : Scope) :
    List Expr → List Place → Except QueryError (List Place)
  | [], ps => .ok ps
  | predicate :: more, ps => do
    let kept ← keep sub scope predicate ps.length 1 ps
    keepAll sub scope more kept

/-- The values of arguments in order. -/
def evalArgs (sub : Evaluator) (focus : Focus) (scope : Scope) :
    List Expr → Except QueryError (List Value)
  | [] => .ok []
  | e :: rest => do
    let v ← sub e focus scope
    let more ← evalArgs sub focus scope rest
    .ok (v :: more)

/-- The result of an operation on numbers. -/
def operate : Operation → Float → Float → Float
  | .add, a, b => a + b
  | .sub, a, b => a - b
  | .mul, a, b => a * b
  | .div, a, b => a / b
  | .mod, a, b => Decimal.remainder a b

namespace Index

/-- The places that a step selects from one place. -/
def stepFrom (ix : Index) (sub : Evaluator) (scope : Scope) (s : Step) (p : Place) :
    Except QueryError (List Place) :=
  keepAll sub scope s.predicates ((ix.along s.axis p).filter (ix.passes s.axis s.test))

/-- The places that a step selects from several, one after the other. -/
def stepFromAll (ix : Index) (sub : Evaluator) (scope : Scope) (s : Step) :
    List Place → Except QueryError (List Place)
  | [] => .ok []
  | p :: rest => do
    let here ← ix.stepFrom sub scope s p
    let more ← stepFromAll ix sub scope s rest
    .ok (here ++ more)

/-- The places that steps select, in document order after each step. -/
def follow (ix : Index) (sub : Evaluator) (scope : Scope) :
    List Step → List Place → Except QueryError (List Place)
  | [], ps => .ok ps
  | s :: steps, ps => do
    let found ← ix.stepFromAll sub scope s ps
    follow ix sub scope steps (ix.sortUnique found)

/-- The places where a path starts. -/
def startPlaces (sub : Evaluator) (focus : Focus) (scope : Scope) :
    Start → Except QueryError (List Place)
  | .root => .ok [.node Markup.Document.root]
  | .context => .ok [focus.place]
  | .nodes e => do
    let v ← sub e focus scope
    asNodes v

/-- The value of an expression whose parts are evaluated by `sub`. -/
def evalLevel (ix : Index) (sub : Evaluator) : Evaluator := fun e focus scope =>
  match e with
  | .or left right => do
    let a ← sub left focus scope
    if truthOf a then .ok (.truth true)
    else
      let b ← sub right focus scope
      .ok (.truth (truthOf b))
  | .and left right => do
    let a ← sub left focus scope
    if truthOf a then
      let b ← sub right focus scope
      .ok (.truth (truthOf b))
    else .ok (.truth false)
  | .compare op left right => do
    let a ← sub left focus scope
    let b ← sub right focus scope
    .ok (.truth (ix.compareValues op a b))
  | .arith op left right => do
    let a ← sub left focus scope
    let b ← sub right focus scope
    .ok (.number (operate op (ix.numberOf a) (ix.numberOf b)))
  | .negate operand => do
    let a ← sub operand focus scope
    .ok (.number (-ix.numberOf a))
  | .union left right => do
    let a ← sub left focus scope
    let as ← asNodes a
    let b ← sub right focus scope
    let bs ← asNodes b
    .ok (.nodes (ix.sortUnique (as ++ bs)))
  | .path start steps => do
    let ps ← startPlaces sub focus scope start
    let found ← ix.follow sub scope steps ps
    .ok (.nodes found)
  | .filter primary predicates => do
    let v ← sub primary focus scope
    let ps ← asNodes v
    let kept ← keepAll sub scope predicates ps
    .ok (.nodes kept)
  | .literal body => .ok (.text body)
  | .number x => .ok (.number x)
  | .varRef name =>
    match scope.get? name with
    | some v => .ok v
    | none => .error (.unboundVariable name)
  | .call function args => do
    let vs ← evalArgs sub focus scope args
    ix.call function.label focus vs

/-- The value of an expression nested at most the given number of levels. -/
def eval (ix : Index) : Nat → Evaluator
  | 0 => fun _ _ _ => .error (.tooDeep depthLimit)
  | levels + 1 => ix.evalLevel (ix.eval levels)

/-- The value of a query at a node. -/
def evaluate (ix : Index) (q : Query) (p : Place) (scope : Scope) : Except QueryError Value :=
  ix.eval (depthLimit + 1) q.expr (Focus.single p) scope

/-- The nodes that a query selects from a node. -/
def select (ix : Index) (q : Query) (p : Place) (scope : Scope) :
    Except QueryError (List Place) := do
  let v ← ix.evaluate q p scope
  asNodes v

/-- Whether a query holds at a node. -/
def test (ix : Index) (q : Query) (p : Place) (scope : Scope) : Except QueryError Bool :=
  (ix.evaluate q p scope).map truthOf

end Index

end MarkupRules.Query
