/-
# The function library

Every function that expressions may call, with the number of arguments it takes and the dialects
that know it. A call is checked when an expression is compiled. It keeps its name, which is looked
up again when it is evaluated, then without asking for the dialect or the number of arguments.

Key definitions: `Builtin`, `Signature`, `library`, `lookup?`, `function?`, `checkCall`.
-/
import MarkupRules.Dialect
import MarkupRules.Query.Error

namespace MarkupRules.Query

/-- The functions. -/
inductive Builtin where
  /-- The number of nodes in the context. -/
  | last
  /-- The place of the context node among them. -/
  | position
  /-- The number of nodes of a set. -/
  | count
  /-- The elements identified by the words of a text. -/
  | id
  /-- The local part of the name of a node. -/
  | localName
  /-- The namespace of the name of a node. -/
  | namespaceUri
  /-- The name of a node as written. -/
  | name
  /-- A value as a text. -/
  | string
  /-- Texts one after the other. -/
  | concat
  /-- Whether a text begins with another. -/
  | startsWith
  /-- Whether a text holds another. -/
  | contains
  /-- What stands before the first occurrence of a text. -/
  | substringBefore
  /-- What stands after the first occurrence of a text. -/
  | substringAfter
  /-- The characters of a text from a position on. -/
  | substring
  /-- The number of characters of a text. -/
  | stringLength
  /-- The words of a text with single spaces between them. -/
  | normalizeSpace
  /-- A text with characters replaced or removed. -/
  | translate
  /-- A value as a truth value. -/
  | boolean
  /-- The other truth value. -/
  | not
  /-- True. -/
  | yes
  /-- False. -/
  | no
  /-- Whether the language in force is the one given or a variety of it. -/
  | lang
  /-- A value as a number. -/
  | number
  /-- The sum of the numbers of the nodes of a set. -/
  | sum
  /-- The greatest integer not above a number. -/
  | floor
  /-- The least integer not below a number. -/
  | ceiling
  /-- The nearest integer, a half going up. -/
  | round
  /-- Whether there is anything. -/
  | isPresent
  /-- Whether there is nothing. -/
  | isAbsent
  /-- Whether a text ends with another. -/
  | endsWith
  /-- A text in upper case. -/
  | upperCase
  /-- A text in lower case. -/
  | lowerCase
  /-- The texts of the nodes of a set with a text between them. -/
  | stringJoin
  deriving DecidableEq, Repr

/-- How a function may be called. -/
structure Signature where
  /-- The function. -/
  builtin : Builtin
  /-- Its name in expressions. -/
  label : String
  /-- The least number of arguments. -/
  least : Nat
  /-- The greatest number of arguments, if there is one. -/
  most : Option Nat
  /-- Whether only the modern dialect has it. -/
  modernOnly : Bool

/-- All functions in the order in which they are listed. -/
def library : List Signature := [
  ⟨.last, "last", 0, some 0, false⟩,
  ⟨.position, "position", 0, some 0, false⟩,
  ⟨.count, "count", 1, some 1, false⟩,
  ⟨.id, "id", 1, some 1, false⟩,
  ⟨.localName, "local-name", 0, some 1, false⟩,
  ⟨.namespaceUri, "namespace-uri", 0, some 1, false⟩,
  ⟨.name, "name", 0, some 1, false⟩,
  ⟨.string, "string", 0, some 1, false⟩,
  ⟨.concat, "concat", 2, none, false⟩,
  ⟨.startsWith, "starts-with", 2, some 2, false⟩,
  ⟨.contains, "contains", 2, some 2, false⟩,
  ⟨.substringBefore, "substring-before", 2, some 2, false⟩,
  ⟨.substringAfter, "substring-after", 2, some 2, false⟩,
  ⟨.substring, "substring", 2, some 3, false⟩,
  ⟨.stringLength, "string-length", 0, some 1, false⟩,
  ⟨.normalizeSpace, "normalize-space", 0, some 1, false⟩,
  ⟨.translate, "translate", 3, some 3, false⟩,
  ⟨.boolean, "boolean", 1, some 1, false⟩,
  ⟨.not, "not", 1, some 1, false⟩,
  ⟨.yes, "true", 0, some 0, false⟩,
  ⟨.no, "false", 0, some 0, false⟩,
  ⟨.lang, "lang", 1, some 1, false⟩,
  ⟨.number, "number", 0, some 1, false⟩,
  ⟨.sum, "sum", 1, some 1, false⟩,
  ⟨.floor, "floor", 1, some 1, false⟩,
  ⟨.ceiling, "ceiling", 1, some 1, false⟩,
  ⟨.round, "round", 1, some 1, false⟩,
  ⟨.isPresent, "exists", 1, some 1, true⟩,
  ⟨.isAbsent, "empty", 1, some 1, true⟩,
  ⟨.endsWith, "ends-with", 2, some 2, true⟩,
  ⟨.upperCase, "upper-case", 1, some 1, true⟩,
  ⟨.lowerCase, "lower-case", 1, some 1, true⟩,
  ⟨.stringJoin, "string-join", 1, some 2, true⟩]

/-- Whether a dialect has a function. -/
def Signature.isIn (s : Signature) (dialect : Dialect) : Bool :=
  !s.modernOnly || dialect == .modern

/-- The function of a dialect with a given name. -/
def lookup? (name : String) (dialect : Dialect) : Option Signature :=
  library.find? fun s => s.label == name && s.isIn dialect

/-- The function with a given name, whichever dialect has it. -/
def function? (name : String) : Option Signature :=
  library.find? fun s => s.label == name

/-- The names of the functions of a dialect. -/
def functionNames (dialect : Dialect) : List String :=
  (library.filter fun s => s.isIn dialect).map Signature.label

/-- The name of a function in expressions. -/
def Builtin.label (f : Builtin) : String :=
  match library.find? fun s => s.builtin = f with
  | some s => s.label
  | none => ""

/-- Whether a function takes a number of arguments. -/
def Signature.accepts (s : Signature) (given : Nat) : Bool :=
  s.least ≤ given && s.most.all fun most => given ≤ most

/-- The accepted numbers of arguments in words. -/
def Signature.expected (s : Signature) : String :=
  match s.most with
  | some most =>
    if most = s.least then toString most
    else toString s.least ++ " to " ++ toString most
  | none => "at least " ++ toString s.least

/-- Whether a dialect has a function of a name and it takes that many arguments, or what is
wrong. -/
def checkCall (name : String) (given : Nat) (dialect : Dialect) : Except QueryError Unit :=
  match lookup? name dialect with
  | none => .error (.unknownFunction name)
  | some s => if s.accepts given then .ok () else .error (.arity name s.expected given)

end MarkupRules.Query
