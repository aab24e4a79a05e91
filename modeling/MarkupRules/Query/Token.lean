/-
# Tokens of expressions

Key definitions: `Token`, `Token.endsOperand` (whether an operator may follow), `Token.shown`
(how a token appears in messages).
-/
import MarkupRules.Decimal.Notation
import MarkupRules.Decimal.Reader
import MarkupRules.Text.Quoted

namespace MarkupRules.Query

/-- A token of an expression. -/
inductive Token where
  /-- An opening parenthesis. -/
  | leftParen
  /-- A closing parenthesis. -/
  | rightParen
  /-- An opening bracket. -/
  | leftBracket
  /-- A closing bracket. -/
  | rightBracket
  /-- One dot. -/
  | dot
  /-- Two dots. -/
  | dotDot
  /-- The sign of an attribute. -/
  | atSign
  /-- A comma. -/
  | comma
  /-- Two colons. -/
  | colonColon
  /-- One slash. -/
  | slash
  /-- Two slashes. -/
  | doubleSlash
  /-- A vertical bar. -/
  | pipe
  /-- A plus sign. -/
  | plus
  /-- A minus sign. -/
  | minus
  /-- An equals sign. -/
  | equal
  /-- The sign of inequality. -/
  | notEqual
  /-- The sign of less. -/
  | less
  /-- The sign of less or equal. -/
  | lessEqual
  /-- The sign of greater. -/
  | greater
  /-- The sign of greater or equal. -/
  | greaterEqual
  /-- An asterisk as an operator. -/
  | multiply
  /-- The word `and` as an operator. -/
  | and
  /-- The word `or` as an operator. -/
  | or
  /-- The word `div` as an operator. -/
  | div
  /-- The word `mod` as an operator. -/
  | mod
  /-- A quoted text. -/
  | literal (body : String)
  /-- A number, by its digits. -/
  | number (digits : String)
  /-- A reference to a variable. -/
  | varRef (name : String)
  /-- A name with an optional label; the local part of a wildcard is an asterisk. -/
  | name (label : Option String) (localPart : String)
  /-- The end of the text. -/
  | eof
  deriving DecidableEq, Repr

namespace Token

/-- Whether an operator may follow a token. -/
def endsOperand : Token → Bool
  | rightParen | rightBracket | dot | dotDot | literal _ | number _ | varRef _ | name _ _
  | eof => true
  | _ => false

/-- The double that the digits of a number stand for. -/
def numberValue (digits : String) : Float :=
  (Decimal.readUnsigned? false digits.toList).getD Decimal.nan

/-- The word by which messages and listings call a kind of token. -/
def kind : Token → String
  | leftParen => "LeftParen"
  | rightParen => "RightParen"
  | leftBracket => "LeftBracket"
  | rightBracket => "RightBracket"
  | dot => "Dot"
  | dotDot => "DotDot"
  | atSign => "At"
  | comma => "Comma"
  | colonColon => "ColonColon"
  | slash => "Slash"
  | doubleSlash => "DoubleSlash"
  | pipe => "Pipe"
  | plus => "Plus"
  | minus => "Minus"
  | equal => "Equal"
  | notEqual => "NotEqual"
  | less => "Less"
  | lessEqual => "LessEqual"
  | greater => "Greater"
  | greaterEqual => "GreaterEqual"
  | multiply => "Multiply"
  | and => "And"
  | or => "Or"
  | div => "Div"
  | mod => "Mod"
  | literal _ => "Literal"
  | number _ => "Number"
  | varRef _ => "Variable"
  | name _ _ => "Name"
  | eof => "Eof"

/-- A token as it appears in messages. -/
def shown (t : Token) : String :=
  match t with
  | literal body => t.kind ++ "(" ++ Text.quote body ++ ")"
  | number digits => t.kind ++ "(" ++ Decimal.exact (numberValue digits) ++ ")"
  | varRef v => t.kind ++ "(" ++ Text.quote v ++ ")"
  | name label localPart =>
    let written :=
      match label with
      | some l => "Some(" ++ Text.quote l ++ ")"
      | none => "None"
    t.kind ++ " \x7b prefix: " ++ written ++ ", local: " ++ Text.quote localPart ++ " \x7d"
  | _ => t.kind

end Token

end MarkupRules.Query
