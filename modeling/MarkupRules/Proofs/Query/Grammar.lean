/-
# The grammar of expressions

Which tokens write which expression, said without a parser. The rules are those of the levels of
operators, from the loosest to the tightest, of paths with their steps, and of primary expressions
with their predicates. They stand over a rule for the expressions nested in parentheses, brackets
and arguments, and the grammar stacks them: `Writes context n` is what can be written with at most
`n` expressions inside each other, the outermost one counted.

Key definitions: `Phrase`, `Joins`, `WritesJoined`, `WritesStep`, `WritesPrimary`, `WritesPath`,
`Writes`.
-/
import MarkupRules.Proofs.Query.Calls

namespace MarkupRules.Query

/-- Which lists of tokens write which things. -/
abbrev Phrase (α : Type) := List Token → α → Prop

/-! ### Operators -/

/-- The levels of the operators that stand between two operands, the loosest first. -/
inductive Tier where
  /-- Alternatives. -/
  | disjunction
  /-- Conditions. -/
  | conjunction
  /-- Equality and inequality. -/
  | equality
  /-- The relations of order. -/
  | order
  /-- Sums and differences. -/
  | sum
  /-- Products, quotients and remainders. -/
  | product
  /-- Unions of sets of nodes. -/
  | union

/-- The operators of a level and what they make of their operands. -/
inductive Joins : Tier → Token → (Expr → Expr → Expr) → Prop where
  | or : Joins .disjunction .or .or
  | and : Joins .conjunction .and .and
  | equal : Joins .equality .equal (.compare .eq)
  | notEqual : Joins .equality .notEqual (.compare .ne)
  | less : Joins .order .less (.compare .lt)
  | lessEqual : Joins .order .lessEqual (.compare .le)
  | greater : Joins .order .greater (.compare .gt)
  | greaterEqual : Joins .order .greaterEqual (.compare .ge)
  | plus : Joins .sum .plus (.arith .add)
  | minus : Joins .sum .minus (.arith .sub)
  | multiply : Joins .product .multiply (.arith .mul)
  | div : Joins .product .div (.arith .div)
  | mod : Joins .product .mod (.arith .mod)
  | pipe : Joins .union .pipe .union

/-- Operands with operators of one level between them, combined from the left. -/
inductive WritesJoined (tier : Tier) (operand : Phrase Expr) : Phrase Expr where
  | one {w e} : operand w e → WritesJoined tier operand w e
  | more {w left t combine v right} : WritesJoined tier operand w left → Joins tier t combine →
      operand v right → WritesJoined tier operand (w ++ t :: v) (combine left right)

/-- Any number of minus signs in front of an operand. -/
inductive WritesSigned (operand : Phrase Expr) : Phrase Expr where
  | plain {w e} : operand w e → WritesSigned operand w e
  | minus {w e} : WritesSigned operand w e → WritesSigned operand (.minus :: w) (.negate e)

/-! ### What holds nested expressions -/

/-- Predicates, each in brackets. -/
inductive WritesPredicates (nested : Phrase Expr) : Phrase (List Expr) where
  | none : WritesPredicates nested [] []
  | more {w e v es} : nested w e → WritesPredicates nested v es →
      WritesPredicates nested (.leftBracket :: w ++ .rightBracket :: v) (e :: es)

/-- Arguments with commas between them, up to the closing parenthesis. -/
inductive WritesArguments (nested : Phrase Expr) : Phrase (List Expr) where
  | last {w e} : nested w e → WritesArguments nested (w ++ [.rightParen]) [e]
  | more {w e v es} : nested w e → WritesArguments nested v es →
      WritesArguments nested (w ++ .comma :: v) (e :: es)

/-- The arguments of a call in their parentheses. -/
inductive WritesArgumentList (nested : Phrase Expr) : Phrase (List Expr) where
  | none : WritesArgumentList nested [.leftParen, .rightParen] []
  | some {w es} : WritesArguments nested w es →
      WritesArgumentList nested (.leftParen :: w) es

/-! ### Steps -/

/-- An axis, which is the child axis unless another one is written. -/
inductive WritesAxis : Phrase Axis where
  | child : WritesAxis [] .child
  | attr : WritesAxis [.atSign] .attr
  | named (axis : Axis) : WritesAxis [.name none axis.label, .colonColon] axis

/-- A test: a name, with a label if it is in a namespace, or a kind of node. -/
inductive WritesTest (context : Context) : Phrase NodeTest where
  | anyName : WritesTest context [.name none "*"] .anyName
  | name {localPart} : localPart ≠ "*" →
      WritesTest context [.name none localPart] (.name none localPart)
  | anyNameIn {label uri} : context.bindings.get? label = some uri →
      WritesTest context [.name (some label) "*"] (.anyNameIn uri)
  | nameIn {label uri localPart} : context.bindings.get? label = some uri → localPart ≠ "*" →
      WritesTest context [.name (some label) localPart] (.name (some uri) localPart)
  | anyNode : WritesTest context [.name none "node", .leftParen, .rightParen] .anyNode
  | text : WritesTest context [.name none "text", .leftParen, .rightParen] .text
  | comment : WritesTest context [.name none "comment", .leftParen, .rightParen] .comment
  | instruction : WritesTest context
      [.name none "processing-instruction", .leftParen, .rightParen] (.instruction none)
  | instructionTo (target : String) : WritesTest context
      [.name none "processing-instruction", .leftParen, .literal target, .rightParen]
      (.instruction (some target))

/-- What leads to a step, with the steps that come before it: a double slash adds a step of its
own. -/
inductive Leads : Token → List Step → Prop where
  | slash : Leads .slash []
  | doubleSlash : Leads .doubleSlash [Step.anywhere]

section Nested

variable (context : Context) (nested : Phrase Expr)

/-- A step; one dot and two dots are steps of their own and take no predicates. -/
inductive WritesStep : Phrase Step where
  | self : WritesStep [.dot] (.mk .self .anyNode [])
  | parent : WritesStep [.dotDot] (.mk .parent .anyNode [])
  | full {u axis v test w predicates} : WritesAxis u axis → WritesTest context v test →
      WritesPredicates nested w predicates →
      WritesStep (u ++ (v ++ w)) (.mk axis test predicates)

/-- Steps with slashes between them. -/
inductive WritesSteps : Phrase (List Step) where
  | one {w s} : WritesStep context nested w s → WritesSteps w [s]
  | more {w s t between v steps} : WritesStep context nested w s → Leads t between →
      WritesSteps v steps → WritesSteps (w ++ t :: v) (s :: (between ++ steps))

/-! ### Primary expressions and paths -/

/-- A primary expression. Functions have names without labels. -/
inductive WritesPrimary : Phrase Expr where
  | varRef (name : String) : WritesPrimary [.varRef name] (.varRef name)
  | literal (body : String) : WritesPrimary [.literal body] (.literal body)
  | number (digits : String) :
      WritesPrimary [.number digits] (.number (Token.numberValue digits))
  | parens {w e} : nested w e → WritesPrimary (.leftParen :: w ++ [.rightParen]) e
  | call {name w args} : WritesArgumentList nested w args →
      Callable context.dialect name args.length →
      WritesPrimary (.name none name :: w) (.call ⟨name⟩ args)

/-- A primary expression with predicates, or alone. -/
inductive WritesFilter : Phrase Expr where
  | bare {w e} : WritesPrimary context nested w e → WritesFilter w e
  | filter {w e v predicates} : WritesPrimary context nested w e →
      WritesPredicates nested v predicates → predicates ≠ [] →
      WritesFilter (w ++ v) (.filter e predicates)

/-- A path from the root, from the nodes of an expression or from the context, or an expression
without steps. -/
inductive WritesPath : Phrase Expr where
  | root : WritesPath [.slash] (.path .root [])
  | fromRoot {t between w steps} : Leads t between → WritesSteps context nested w steps →
      WritesPath (t :: w) (.path .root (between ++ steps))
  | bare {w e} : WritesFilter context nested w e → WritesPath w e
  | fromNodes {w e t between v steps} : WritesFilter context nested w e → Leads t between →
      WritesSteps context nested v steps →
      WritesPath (w ++ t :: v) (.path (.nodes e) (between ++ steps))
  | relative {w steps} : WritesSteps context nested w steps →
      WritesPath w (.path .context steps)

/-! ### Expressions -/

/-- All levels of operators over paths. -/
def WritesExpr : Phrase Expr :=
  WritesJoined .disjunction <| WritesJoined .conjunction <| WritesJoined .equality <|
    WritesJoined .order <| WritesJoined .sum <| WritesJoined .product <|
      WritesSigned <| WritesJoined .union <| WritesPath context nested

end Nested

/-- Expressions with at most the given levels of nesting. -/
def Writes (context : Context) : Nat → Phrase Expr
  | 0 => fun _ _ => False
  | depth + 1 => WritesExpr context (Writes context depth)

end MarkupRules.Query
