/-
# Splitting an expression into tokens

An asterisk and the words `and`, `or`, `div` and `mod` are operators only where an operator may
stand, that is behind a token that can end an operand; elsewhere they are names. `takeToken`
reads one token and says which characters it is made of, so that the text is the lexemes in
order with spaces between them. Positions count bytes.

Key definitions: `takeToken`, `Located`, `tokenize`.
-/
import MarkupRules.Query.Error
import MarkupRules.Query.Token
import MarkupRules.Text.Letter

namespace MarkupRules.Query

/-- Whether a name may start with a character. -/
def isNameStart (c : Char) : Bool :=
  Text.isLetter c || c = '_'

/-- Whether a name may hold a character. -/
def isNameChar (c : Char) : Bool :=
  Text.isAlphanumeric c || c = '_' || c = '-' || c = '.' || c = '·'

/-- The number of bytes of a text. -/
def byteLength (cs : List Char) : Nat :=
  (String.ofList cs).utf8ByteSize

/-- A token with the characters it is made of and what is left. -/
structure Lexed where
  /-- The token. -/
  token : Token
  /-- The characters of the token. -/
  lexeme : List Char
  /-- The text behind the token. -/
  rest : List Char

/-- A name without a colon, which starts where a name may start. -/
def takeWord (cs : List Char) : List Char × List Char :=
  (cs.takeWhile isNameChar, cs.dropWhile isNameChar)

/-- The word operators. -/
def wordOperator? (word : List Char) : Option Token :=
  if word = "and".toList then some .and
  else if word = "or".toList then some .or
  else if word = "div".toList then some .div
  else if word = "mod".toList then some .mod
  else none

/-- A name, a name behind a label, or a word operator where one may stand. -/
def takeNameToken (operatorAllowed : Bool) (cs : List Char) : Lexed :=
  let (word, rest) := takeWord cs
  match (if operatorAllowed then wordOperator? word else none) with
  | some op => ⟨op, word, rest⟩
  | none =>
    let alone : Lexed := ⟨.name none (String.ofList word), word, rest⟩
    match rest with
    | ':' :: '*' :: behind =>
      ⟨.name (some (String.ofList word)) "*", word ++ [':', '*'], behind⟩
    | ':' :: c :: behind =>
      if isNameStart c then
        let (second, rest) := takeWord (c :: behind)
        ⟨.name (some (String.ofList word)) (String.ofList second), word ++ ':' :: second, rest⟩
      else alone
    | _ => alone

/-- The name of a variable with an optional label; empty if no name starts here. -/
def takeVariableName (cs : List Char) : List Char × List Char :=
  match cs with
  | c :: _ =>
    if isNameStart c then
      let (word, rest) := takeWord cs
      match rest with
      | ':' :: d :: behind =>
        if isNameStart d then
          let (second, rest) := takeWord (d :: behind)
          (word ++ ':' :: second, rest)
        else (word, rest)
      | _ => (word, rest)
    else ([], cs)
  | [] => ([], [])

/-- Digits with at most one point. -/
def takeNumber (cs : List Char) : List Char × List Char :=
  let (whole, rest) := Decimal.spanDigits cs
  match rest with
  | '.' :: rest =>
    let (fraction, rest) := Decimal.spanDigits rest
    (whole ++ '.' :: fraction, rest)
  | _ => (whole, rest)

/-- A number token. -/
def takeNumberToken (cs : List Char) : Lexed :=
  let (digits, rest) := takeNumber cs
  ⟨.number (String.ofList digits), digits, rest⟩

/-- A quoted text after its opening quote. -/
def takeLiteral (quote : Char) (cs : List Char) : Option Lexed :=
  let body := cs.takeWhile (· ≠ quote)
  match cs.dropWhile (· ≠ quote) with
  | _ :: rest => some ⟨.literal (String.ofList body), quote :: body ++ [quote], rest⟩
  | [] => none

/-- The token that a text begins with, or what is wrong there. -/
def takeToken (operatorAllowed : Bool) (cs : List Char) : Except String Lexed :=
  match cs with
  | [] => .ok ⟨.eof, [], []⟩
  | '(' :: r => .ok ⟨.leftParen, ['('], r⟩
  | ')' :: r => .ok ⟨.rightParen, [')'], r⟩
  | '[' :: r => .ok ⟨.leftBracket, ['['], r⟩
  | ']' :: r => .ok ⟨.rightBracket, [']'], r⟩
  | '@' :: r => .ok ⟨.atSign, ['@'], r⟩
  | ',' :: r => .ok ⟨.comma, [','], r⟩
  | '|' :: r => .ok ⟨.pipe, ['|'], r⟩
  | '+' :: r => .ok ⟨.plus, ['+'], r⟩
  | '-' :: r => .ok ⟨.minus, ['-'], r⟩
  | '=' :: r => .ok ⟨.equal, ['='], r⟩
  | '!' :: '=' :: r => .ok ⟨.notEqual, ['!', '='], r⟩
  | '<' :: '=' :: r => .ok ⟨.lessEqual, ['<', '='], r⟩
  | '<' :: r => .ok ⟨.less, ['<'], r⟩
  | '>' :: '=' :: r => .ok ⟨.greaterEqual, ['>', '='], r⟩
  | '>' :: r => .ok ⟨.greater, ['>'], r⟩
  | ':' :: ':' :: r => .ok ⟨.colonColon, [':', ':'], r⟩
  | '/' :: '/' :: r => .ok ⟨.doubleSlash, ['/', '/'], r⟩
  | '/' :: r => .ok ⟨.slash, ['/'], r⟩
  | '.' :: '.' :: r => .ok ⟨.dotDot, ['.', '.'], r⟩
  | '.' :: r =>
    if r.head?.any Char.isDigit then .ok (takeNumberToken ('.' :: r))
    else .ok ⟨.dot, ['.'], r⟩
  | '*' :: r => .ok ⟨if operatorAllowed then .multiply else .name none "*", ['*'], r⟩
  | '$' :: r =>
    let (name, rest) := takeVariableName r
    if name.isEmpty then .error "expected a variable name after '$'"
    else .ok ⟨.varRef (String.ofList name), '$' :: name, rest⟩
  | c :: r =>
    if c = '"' ∨ c = '\'' then
      match takeLiteral c r with
      | some lexed => .ok lexed
      | none => .error "unterminated string literal"
    else if c.isDigit then .ok (takeNumberToken (c :: r))
    else if isNameStart c then .ok (takeNameToken operatorAllowed (c :: r))
    else .error ("unexpected character '" ++ String.singleton c ++ "'")

/-- A token with its position in bytes. -/
structure Located where
  /-- The token. -/
  token : Token
  /-- The number of bytes before the token. -/
  position : Nat
  deriving DecidableEq, Repr

/-- The tokens of a text that stands at a position, up to the end. -/
def tokenizeFrom : Nat → Nat → Bool → List Char → Except QueryError (List Located)
  | 0, _, _, _ => .ok []
  | fuel + 1, position, operatorAllowed, cs =>
    let position := position + byteLength (cs.takeWhile Text.isSpace)
    match takeToken operatorAllowed (cs.dropWhile Text.isSpace) with
    | .error problem => .error (.syntaxAt position problem)
    | .ok lexed =>
      if lexed.token = .eof then .ok [⟨.eof, position⟩]
      else
        (tokenizeFrom fuel (position + byteLength lexed.lexeme) lexed.token.endsOperand
          lexed.rest).map (⟨lexed.token, position⟩ :: ·)

/-- The tokens of an expression. The last one is the end of the text. -/
def tokenize (text : String) : Except QueryError (List Located) :=
  let cs := text.toList
  tokenizeFrom (cs.length + 1) 0 false cs

end MarkupRules.Query
