/-
# The functions

What the functions of the library compute from the values of their arguments. Functions with an
optional argument take the context node in its place. A call names its function; that there is one
of that name and that it takes that many arguments was checked when the expression was compiled,
and a call that does not fit is refused here again.

Key definitions: `Index.apply`, `Index.call`.
-/
import MarkupRules.Query.Walk
import MarkupRules.Text.Case
import MarkupRules.Text.Search

namespace MarkupRules.Query

open Markup (Document NodeId Name)

/-- The nodes of a value that is a set of nodes. -/
def asNodes : Value → Except QueryError (List Place)
  | .nodes ps => .ok ps
  | v => .error (.notNodes v.typeName)

/-- The characters of a text at the positions from `start` on and before `finish`, where `i` is
the position of the first character. -/
def sliceFrom (start finish : Float) : Nat → List Char → List Char
  | _, [] => []
  | i, c :: rest =>
    let p := Decimal.ofNat i
    if start ≤ p && p < finish then c :: sliceFrom start finish (i + 1) rest
    else sliceFrom start finish (i + 1) rest

/-- A character replaced by the one at the same place of `after`, or dropped if there is none. -/
def translateChar (before after : List Char) (c : Char) : Option Char :=
  match before.idxOf? c with
  | some i => after[i]?
  | none => some c

/-- Whether a language, in lower case, is the one asked for or a variety of it. -/
def isLanguage (wanted found : String) : Bool :=
  match Text.stripStart? wanted found with
  | some rest => rest = "" || Text.startsWith rest "-"
  | none => false

/-- Whether there is anything: a value that is no set always is. -/
def isPresent : Value → Bool
  | .nodes ps => !ps.isEmpty
  | _ => true

namespace Index

/-- The text of an optional argument, or of the context node. -/
def textArg (ix : Index) (focus : Focus) : List Value → String
  | v :: _ => ix.textOf v
  | [] => ix.placeText focus.place

/-- The name of the first node of an optional argument, or of the context node. -/
def nameArg (ix : Index) (focus : Focus) : List Value → Except QueryError (Option Name)
  | v :: _ => (asNodes v).map fun ps => ps.head?.bind ix.placeName?
  | [] => .ok (ix.placeName? focus.place)

/-- The texts of the nodes of a set, or of the value alone. -/
def textsOf (ix : Index) : Value → List String
  | .nodes ps => ps.map ix.placeText
  | v => [ix.textOf v]

/-- The elements identified by the words of a value. -/
def identified (ix : Index) (v : Value) : List Place :=
  let text := String.intercalate " " (ix.textsOf v)
  let below := ix.doc.descendants Document.root
  ix.sortUnique (((Text.words text).filterMap (ix.doc.identifiedIn? below)).map .node)

/-- The language in force at a node, in lower case. -/
def language? (ix : Index) (n : NodeId) : Option String :=
  (n :: ix.doc.ancestors n).findSome? fun m =>
    ((ix.doc.attributes m).find? fun a =>
      a.name.localPart == "lang" && a.name.uri == some Markup.xmlUri).map fun a =>
        Text.lower a.value

/-- The sum of the numbers of nodes. The empty sum is the negative zero, which leaves every
other sum as it is. -/
def total (ix : Index) (ps : List Place) : Float :=
  ps.foldl (fun sum p => sum + Decimal.ofNumeral (ix.placeText p)) (-0.0)

/-- The part of a text from a position on, of a length if one is given; both are rounded. -/
def substring (ix : Index) (v start : Value) (length : Option Value) : String :=
  let first := Decimal.roundHalfUp (ix.numberOf start)
  let finish :=
    match length with
    | some n => first + Decimal.roundHalfUp (ix.numberOf n)
    | none => Decimal.infinity
  String.ofList (sliceFrom first finish 1 (ix.textOf v).toList)

/-- The value of a function at a focus. -/
def apply (ix : Index) (f : Builtin) (focus : Focus) (args : List Value) :
    Except QueryError Value :=
  match f, args with
  | .last, _ => .ok (.number (Decimal.ofNat focus.size))
  | .position, _ => .ok (.number (Decimal.ofNat focus.position))
  | .count, v :: _ => (asNodes v).map fun ps => .number (Decimal.ofNat ps.length)
  | .id, v :: _ => .ok (.nodes (ix.identified v))
  | .localName, args =>
    (ix.nameArg focus args).map fun n => .text ((n.map Name.localPart).getD "")
  | .namespaceUri, args =>
    (ix.nameArg focus args).map fun n => .text ((n.bind Name.uri).getD "")
  | .name, args => (ix.nameArg focus args).map fun n => .text ((n.map Name.written).getD "")
  | .string, args => .ok (.text (ix.textArg focus args))
  | .concat, args => .ok (.text (String.join (args.map ix.textOf)))
  | .startsWith, a :: b :: _ => .ok (.truth (Text.startsWith (ix.textOf a) (ix.textOf b)))
  | .contains, a :: b :: _ => .ok (.truth (Text.contains (ix.textOf a) (ix.textOf b)))
  | .substringBefore, a :: b :: _ => .ok (.text (Text.before (ix.textOf a) (ix.textOf b)))
  | .substringAfter, a :: b :: _ => .ok (.text (Text.after (ix.textOf a) (ix.textOf b)))
  | .substring, a :: b :: more => .ok (.text (ix.substring a b more.head?))
  | .stringLength, args =>
    .ok (.number (Decimal.ofNat (ix.textArg focus args).toList.length))
  | .normalizeSpace, args => .ok (.text (Text.collapse (ix.textArg focus args)))
  | .translate, a :: b :: c :: _ =>
    let before := (ix.textOf b).toList
    let after := (ix.textOf c).toList
    .ok (.text (String.ofList ((ix.textOf a).toList.filterMap (translateChar before after))))
  | .boolean, v :: _ => .ok (.truth (truthOf v))
  | .not, v :: _ => .ok (.truth (!truthOf v))
  | .yes, _ => .ok (.truth true)
  | .no, _ => .ok (.truth false)
  | .lang, v :: _ =>
    let wanted := Text.lower (ix.textOf v)
    .ok (.truth ((ix.language? focus.place.owner).any (isLanguage wanted)))
  | .number, v :: _ => .ok (.number (ix.numberOf v))
  | .number, [] => .ok (.number (Decimal.ofNumeral (ix.placeText focus.place)))
  | .sum, v :: _ => (asNodes v).map fun ps => .number (ix.total ps)
  | .floor, v :: _ => .ok (.number (ix.numberOf v).floor)
  | .ceiling, v :: _ => .ok (.number (ix.numberOf v).ceil)
  | .round, v :: _ => .ok (.number (Decimal.roundHalfUp (ix.numberOf v)))
  | .isPresent, v :: _ => .ok (.truth (isPresent v))
  | .isAbsent, v :: _ => .ok (.truth (!isPresent v))
  | .endsWith, a :: b :: _ => .ok (.truth (Text.endsWith (ix.textOf a) (ix.textOf b)))
  | .upperCase, v :: _ => .ok (.text (Text.upper (ix.textOf v)))
  | .lowerCase, v :: _ => .ok (.text (Text.lower (ix.textOf v)))
  | .stringJoin, v :: more =>
    let separator := (more.head?.map ix.textOf).getD ""
    .ok (.text (String.intercalate separator (ix.textsOf v)))
  | f, args => .error (.arity f.label "" args.length)

/-- The value of a call at a focus, by the function that has its name in any dialect. -/
def call (ix : Index) (name : String) (focus : Focus) (args : List Value) :
    Except QueryError Value :=
  match function? name with
  | some s => ix.apply s.builtin focus args
  | none => .error (.unknownFunction name)

end Index

end MarkupRules.Query
