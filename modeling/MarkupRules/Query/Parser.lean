/-
# From tokens to expressions

Each level of precedence is a parser built from the parser of the level below it, and the whole
tower stands on a parser for nested expressions (in parentheses, brackets and arguments), which
is the same tower with one level of nesting less. Labels of names are resolved and calls are
checked on the way, so that an expression that parses needs no further check.

Key definitions: `Context`, `Parse`, `chain`, `parseExpr`, `parse`, `Query.compile`.
-/
import MarkupRules.Markup.Name
import MarkupRules.NamedList
import MarkupRules.Query.Expr
import MarkupRules.Query.Lexer

namespace MarkupRules.Query

/-- How deep expressions may be nested. -/
def depthLimit : Nat := 128

/-- What an expression is compiled against: a dialect and the labels bound to namespaces. -/
structure Context where
  /-- The dialect, which decides on the functions. -/
  dialect : Dialect
  /-- The namespaces of the labels, in order of declaration. -/
  bindings : NamedList String

namespace Context

/-- A context in which only the label `xml` is bound. -/
def ofDialect (dialect : Dialect) : Context :=
  ⟨dialect, NamedList.empty.insert Markup.xmlLabel Markup.xmlUri⟩

/-- Binds a label, in place of an earlier binding. -/
def declare (c : Context) (label uri : String) : Context :=
  { c with bindings := c.bindings.insert label uri }

/-- The namespace of a label. -/
def resolve (c : Context) (label : String) : Except QueryError String :=
  match c.bindings.get? label with
  | some uri => .ok uri
  | none => .error (.unknownLabel label)

end Context

/-- A parser takes tokens off the front of a list. -/
abbrev Parse (α : Type) := List Located → Except QueryError (α × List Located)

/-- The first token; at the end of the list the end of the text. -/
def current : List Located → Token
  | t :: _ => t.token
  | [] => .eof

/-- The second token. -/
def second (ts : List Located) : Token :=
  current ts.tail

/-- The position of the first token. -/
def positionOf : List Located → Nat
  | t :: _ => t.position
  | [] => 0

/-- A complaint about the first token. -/
def complain {α : Type} (ts : List Located) (problem : String) : Except QueryError α :=
  .error (.syntaxAt (positionOf ts) problem)

/-- What follows a token that has to stand first. -/
def expectToken (wanted : Token) (ts : List Located) : Except QueryError (List Located) :=
  if current ts = wanted then .ok ts.tail
  else complain ts ("expected " ++ wanted.shown ++ ", found " ++ (current ts).shown)

/-- Applies operators of one level to the expression read so far, each with an operand behind
it. -/
def chain (operator? : Token → Option (Expr → Expr → Expr)) (operand : Parse Expr) :
    Nat → Expr → Parse Expr
  | 0, left, ts => .ok (left, ts)
  | fuel + 1, left, ts =>
    match operator? (current ts) with
    | none => .ok (left, ts)
    | some combine => do
      let (right, ts) ← operand ts.tail
      chain operator? operand fuel (combine left right) ts

/-- Operands with operators of one level between them, combined from the left. -/
def level (operator? : Token → Option (Expr → Expr → Expr)) (operand : Parse Expr) :
    Parse Expr := fun ts => do
  let (left, rest) ← operand ts
  if (operator? (current rest)).isNone then .ok (left, rest)
  else chain operator? operand rest.length left rest

/-- The operator that joins alternatives. -/
def orOperator? : Token → Option (Expr → Expr → Expr)
  | .or => some .or
  | _ => none

/-- The operator that joins conditions. -/
def andOperator? : Token → Option (Expr → Expr → Expr)
  | .and => some .and
  | _ => none

/-- The operators of equality. -/
def equalityOperator? : Token → Option (Expr → Expr → Expr)
  | .equal => some (.compare .eq)
  | .notEqual => some (.compare .ne)
  | _ => none

/-- The operators of order. -/
def relationalOperator? : Token → Option (Expr → Expr → Expr)
  | .less => some (.compare .lt)
  | .lessEqual => some (.compare .le)
  | .greater => some (.compare .gt)
  | .greaterEqual => some (.compare .ge)
  | _ => none

/-- The operators of sums. -/
def additiveOperator? : Token → Option (Expr → Expr → Expr)
  | .plus => some (.arith .add)
  | .minus => some (.arith .sub)
  | _ => none

/-- The operators of products. -/
def multiplicativeOperator? : Token → Option (Expr → Expr → Expr)
  | .multiply => some (.arith .mul)
  | .div => some (.arith .div)
  | .mod => some (.arith .mod)
  | _ => none

/-- The operator of unions. -/
def unionOperator? : Token → Option (Expr → Expr → Expr)
  | .pipe => some .union
  | _ => none

/-- Any number of minus signs in front of an operand. -/
def unary (operand : Parse Expr) : Parse Expr
  | [] => operand []
  | t :: ts =>
    if t.token = .minus then do
      let (e, rest) ← unary operand ts
      .ok (.negate e, rest)
    else operand (t :: ts)

/-- Whether a name followed by a parenthesis is a test of the kind of a node. -/
def isNodeType (name : String) : Bool :=
  name = "node" || name = "text" || name = "comment" || name = "processing-instruction"

/-- Whether a token can start a step. -/
def startsStep (ts : List Located) : Bool :=
  match current ts with
  | .dot | .dotDot | .atSign | .name _ _ => true
  | _ => false

/-- Whether tokens start a primary expression, which stands where a path may start but is no
step. -/
def startsPrimary (ts : List Located) : Bool :=
  match current ts with
  | .varRef _ | .literal _ | .number _ | .leftParen => true
  | .name label localPart =>
    localPart ≠ "*" && second ts = .leftParen && !(label.isNone && isNodeType localPart)
  | _ => false

/-- Predicates in brackets, at most as many as `fuel`. -/
def predicatesUpTo (nested : Parse Expr) : (fuel : Nat) → Parse (List Expr)
  | 0, ts => .ok ([], ts)
  | fuel + 1, ts =>
    if current ts = .leftBracket then do
      let (e, ts) ← nested ts.tail
      let ts ← expectToken .rightBracket ts
      let (more, ts) ← predicatesUpTo nested fuel ts
      .ok (e :: more, ts)
    else .ok ([], ts)

/-- Predicates in brackets. -/
def predicates (nested : Parse Expr) : Parse (List Expr) := fun ts =>
  if current ts = .leftBracket then predicatesUpTo nested ts.length ts else .ok ([], ts)

/-- Arguments up to the closing parenthesis, at least one. -/
def arguments (nested : Parse Expr) : Nat → Parse (List Expr)
  | 0, ts => complain ts "unexpected end"
  | fuel + 1, ts => do
    let (e, ts) ← nested ts
    if current ts = .comma then do
      let (more, ts) ← arguments nested fuel ts.tail
      .ok (e :: more, ts)
    else do
      let ts ← expectToken .rightParen ts
      .ok ([e], ts)

/-- The arguments of a call with their parentheses. -/
def argumentList (nested : Parse Expr) : Parse (List Expr) := fun ts => do
  let ts ← expectToken .leftParen ts
  if current ts = .rightParen then .ok ([], ts.tail)
  else arguments nested (ts.length + 1) ts

/-- The test of a kind of node, behind its opening parenthesis. -/
def kindTest (name : String) : Parse NodeTest := fun ts =>
  if name = "node" then .ok (.anyNode, ts)
  else if name = "text" then .ok (.text, ts)
  else if name = "comment" then .ok (.comment, ts)
  else
    match current ts with
    | .literal target => .ok (.instruction (some target), ts.tail)
    | _ => .ok (.instruction none, ts)

/-- The test that a name stands for. -/
def nameTest (context : Context) (label : Option String) (localPart : String) :
    Except QueryError NodeTest :=
  match label with
  | none => .ok (if localPart = "*" then .anyName else .name none localPart)
  | some l =>
    (context.resolve l).map fun uri =>
      if localPart = "*" then .anyNameIn uri else .name (some uri) localPart

/-- A test of a step. -/
def nodeTest (context : Context) : Parse NodeTest := fun ts =>
  match current ts with
  | .name label localPart =>
    if label.isNone && isNodeType localPart && second ts = .leftParen then do
      let (test, ts) ← kindTest localPart ts.tail.tail
      let ts ← expectToken .rightParen ts
      .ok (test, ts)
    else (nameTest context label localPart).map fun test => (test, ts.tail)
  | other => complain ts ("expected a node test, found " ++ other.shown)

/-- The axis of a step, which is the child axis unless another one is written. -/
def axisOf : Parse Axis := fun ts =>
  match current ts, second ts with
  | .atSign, _ => .ok (.attr, ts.tail)
  | .name none label, .colonColon =>
    match Axis.ofLabel? label with
    | some axis => .ok (axis, ts.tail.tail)
    | none => complain ts ("unknown axis '" ++ label ++ "'")
  | _, _ => .ok (.child, ts)

/-- A step of a path. -/
def step (context : Context) (nested : Parse Expr) : Parse Step := fun ts =>
  match current ts with
  | .dot => .ok (.mk .self .anyNode [], ts.tail)
  | .dotDot => .ok (.mk .parent .anyNode [], ts.tail)
  | _ => do
    let (axis, ts) ← axisOf ts
    let (test, ts) ← nodeTest context ts
    let (ps, ts) ← predicates nested ts
    .ok (.mk axis test ps, ts)

/-- Further steps, each behind a slash; a double slash adds a step of its own. -/
def moreSteps (oneStep : Parse Step) : Nat → Parse (List Step)
  | 0, ts => .ok ([], ts)
  | fuel + 1, ts =>
    match current ts with
    | .slash => do
      let (s, ts) ← oneStep ts.tail
      let (more, ts) ← moreSteps oneStep fuel ts
      .ok (s :: more, ts)
    | .doubleSlash => do
      let (s, ts) ← oneStep ts.tail
      let (more, ts) ← moreSteps oneStep fuel ts
      .ok (Step.anywhere :: s :: more, ts)
    | _ => .ok ([], ts)

/-- Steps with slashes between them. -/
def relativePath (oneStep : Parse Step) : Parse (List Step) := fun ts => do
  let (s, ts) ← oneStep ts
  let (more, ts) ← moreSteps oneStep ts.length ts
  .ok (s :: more, ts)

/-- A primary expression. -/
def primary (context : Context) (nested : Parse Expr) : Parse Expr := fun ts =>
  match current ts with
  | .varRef name => .ok (.varRef name, ts.tail)
  | .literal body => .ok (.literal body, ts.tail)
  | .number digits => .ok (.number (Token.numberValue digits), ts.tail)
  | .leftParen => do
    let (e, ts) ← nested ts.tail
    let ts ← expectToken .rightParen ts
    .ok (e, ts)
  | .name label localPart => do
    let name :=
      match label with
      | some l => l ++ ":" ++ localPart
      | none => localPart
    let (args, ts) ← argumentList nested ts.tail
    checkCall name args.length context.dialect
    .ok (.call ⟨name⟩ args, ts)
  | other => complain ts ("unexpected " ++ other.shown)

/-- A primary expression with predicates. -/
def filterExpr (context : Context) (nested : Parse Expr) : Parse Expr := fun ts => do
  let (e, ts) ← primary context nested ts
  let (ps, ts) ← predicates nested ts
  .ok (if ps.isEmpty then e else .filter e ps, ts)

/-- A path, or a primary expression with predicates. -/
def path (context : Context) (nested : Parse Expr) : Parse Expr := fun ts =>
  let relative := relativePath (step context nested)
  match current ts with
  | .slash =>
    if startsStep ts.tail then do
      let (steps, ts) ← relative ts.tail
      .ok (.path .root steps, ts)
    else .ok (.path .root [], ts.tail)
  | .doubleSlash => do
    let (steps, ts) ← relative ts.tail
    .ok (.path .root (Step.anywhere :: steps), ts)
  | _ =>
    if startsPrimary ts then do
      let (e, ts) ← filterExpr context nested ts
      match current ts with
      | .slash => do
        let (steps, ts) ← relative ts.tail
        .ok (.path (.nodes e) steps, ts)
      | .doubleSlash => do
        let (steps, ts) ← relative ts.tail
        .ok (.path (.nodes e) (Step.anywhere :: steps), ts)
      | _ => .ok (e, ts)
    else do
      let (steps, ts) ← relative ts
      .ok (.path .context steps, ts)

/-- All levels of precedence over a parser for nested expressions. -/
def orExpr (context : Context) (nested : Parse Expr) : Parse Expr :=
  level orOperator? <| level andOperator? <| level equalityOperator? <|
    level relationalOperator? <| level additiveOperator? <| level multiplicativeOperator? <|
      unary <| level unionOperator? <| path context nested

/-- An expression with at most the given levels of nesting. -/
def parseExpr (context : Context) : Nat → Parse Expr
  | 0 => fun _ => .error (.tooDeep depthLimit)
  | depth + 1 => orExpr context (parseExpr context depth)

/-- The expression that a whole list of tokens stands for. -/
def parse (context : Context) (ts : List Located) : Except QueryError Expr := do
  let (e, rest) ← parseExpr context depthLimit ts
  match current rest with
  | .eof => .ok e
  | other => complain rest ("unexpected " ++ other.shown ++ " after expression")

end MarkupRules.Query

namespace MarkupRules

/-- A compiled expression with its text. -/
structure Query where
  /-- The text as written. -/
  source : String
  /-- The expression. -/
  expr : Query.Expr

namespace Query

/-- The expression that a text stands for in a context. -/
def compile (source : String) (context : Context) : Except QueryError Query := do
  let ts ← tokenize source
  let e ← parse context ts
  .ok ⟨source, e⟩

end Query

end MarkupRules
