/-
# Validation programs

A validation program is what is left of a schema when all references are resolved and a phase is
chosen: patterns with rules, rules with checks, and definitions of variables on three levels. It
is a type family over what stands for an expression, so that the same structure describes
programs whose expressions are still text and programs that can be run.

Key definitions: `Definition`, `MessagePart`, `Check`, `Rule`, `Pattern`, `Program`.
-/
import MarkupRules.Query.Parser

namespace MarkupRules

namespace Program

/-- A variable with the expression that defines it. -/
structure Definition (ε : Type) where
  /-- The name of the variable. -/
  name : String
  /-- The expression. -/
  value : ε
  deriving Repr

/-- A part of a message. -/
inductive MessagePart (ε : Type) where
  /-- Text as it stands. -/
  | text (content : String)
  /-- The text of the value of an expression. -/
  | value (expression : ε)
  /-- The name of the first node that an expression selects. -/
  | name (expression : ε)
  deriving Repr

/-- When a check finds something. -/
inductive CheckKind where
  /-- It finds something where its test fails. -/
  | assertion
  /-- It finds something where its test holds. -/
  | report
  deriving DecidableEq, Repr

/-- The element of a kind of check, and its name in findings. -/
def CheckKind.label : CheckKind → String
  | assertion => "assert"
  | report => "report"

/-- Whether a check finds something, given the outcome of its test. -/
def CheckKind.fires : CheckKind → Bool → Bool
  | assertion, outcome => !outcome
  | report, outcome => outcome

/-- What rules and checks say about themselves. -/
structure Notes where
  /-- The identifier. -/
  id : Option String
  /-- The role of what is found. -/
  role : Option String
  /-- The flag that is raised by what is found. -/
  flag : Option String
  deriving DecidableEq, Repr

/-- A test with the message for what it finds. -/
structure Check (ε : Type) where
  /-- When it finds something. -/
  kind : CheckKind
  /-- The test. -/
  test : ε
  /-- The identifier, role and flag. -/
  notes : Notes
  /-- The parts of the message. -/
  message : List (MessagePart ε)
  deriving Repr

/-- Checks for the nodes that a pattern of nodes matches. -/
structure Rule (ε : Type) where
  /-- The nodes that the rule is for. -/
  context : ε
  /-- The identifier, role and flag. -/
  notes : Notes
  /-- The variables, defined anew at every node. -/
  definitions : List (Definition ε)
  /-- The checks in order. -/
  checks : List (Check ε)
  deriving Repr

/-- Rules of which the first that matches a node handles it. -/
structure Pattern (ε : Type) where
  /-- The identifier. -/
  id : Option String
  /-- The title. -/
  title : Option String
  /-- The variables of the pattern. -/
  definitions : List (Definition ε)
  /-- The rules in order. -/
  rules : List (Rule ε)
  deriving Repr

end Program

/-- A validation program with expressions of the given type. -/
structure Program (ε : Type) where
  /-- The dialect of the expressions. -/
  dialect : Dialect
  /-- The phase that the program is for. -/
  phase : String
  /-- The title of the schema. -/
  title : Option String
  /-- The namespaces declared for expressions, each with its label. -/
  namespaces : List (String × String)
  /-- The variables of the whole program. -/
  definitions : List (Program.Definition ε)
  /-- The patterns in order. -/
  patterns : List (Program.Pattern ε)
  deriving Repr

namespace Program

variable {ε : Type}

/-- The context against which expressions are compiled. -/
def contextOf (dialect : Dialect) (namespaces : List (String × String)) : Query.Context :=
  namespaces.foldl (fun c n => c.declare n.1 n.2) (.ofDialect dialect)

/-- The context against which the expressions of a program are compiled. -/
def context (p : Program ε) : Query.Context :=
  contextOf p.dialect p.namespaces

/-- The number of rules in all patterns. -/
def ruleCount (p : Program ε) : Nat :=
  (p.patterns.flatMap Pattern.rules).length

end Program

end MarkupRules
