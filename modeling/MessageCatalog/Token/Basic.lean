import MessageCatalog.Number.Text
import MessageCatalog.Text.Quoted

/-!
# Tokens

A phrase is plain text with interpolations `${…}`. Inside an interpolation stand expressions: names,
literals, calls `name(…)`, arrays `[…]`, objects `{…}` and templates between backticks, which hold
text and interpolations again. The tokens are the runs of plain text, the delimiters and the words.
Which constructs are open at a place is a list of openers, the innermost first; opening and closing
tokens push and pop it.
-/
namespace MessageCatalog

inductive TokenKind where
  | string
  | expressionStart | expressionEnd
  | templateStart | templateEnd
  | bracketStart | bracketEnd
  | braceStart | braceEnd
  | parenEnd
  | comma
  | boolean | null | undefined | number
  | functionCall | propertyName | identifier
deriving DecidableEq

inductive Opener where
  | interpolation | call | bracket | brace | template
deriving DecidableEq

inductive Mode where
  | body | expression | template
deriving DecidableEq

structure Token where
  kind : TokenKind
  value : String
  position : Nat
deriving DecidableEq

namespace TokenKind

def all : List TokenKind :=
  [.string, .expressionStart, .expressionEnd, .templateStart, .templateEnd, .bracketStart,
    .bracketEnd, .braceStart, .braceEnd, .parenEnd, .comma, .boolean, .null, .undefined, .number,
    .functionCall, .propertyName, .identifier]

def name : TokenKind → String
  | .string => "STRING"
  | .expressionStart => "EXPRESSION_START"
  | .expressionEnd => "EXPRESSION_END"
  | .templateStart => "TEMPLATE_START"
  | .templateEnd => "TEMPLATE_END"
  | .bracketStart => "BRACKET_START"
  | .bracketEnd => "BRACKET_END"
  | .braceStart => "BRACE_START"
  | .braceEnd => "BRACE_END"
  | .parenEnd => "PAREN_END"
  | .comma => "COMMA"
  | .boolean => "BOOLEAN"
  | .null => "NULL"
  | .undefined => "UNDEFINED"
  | .number => "NUMBER"
  | .functionCall => "FUNCTION_CALL"
  | .propertyName => "PROPERTY_NAME"
  | .identifier => "IDENTIFIER"

def ofName? (s : String) : Option TokenKind := all.find? (·.name == s)

def opens? : TokenKind → Option Opener
  | .expressionStart => some .interpolation
  | .functionCall => some .call
  | .bracketStart => some .bracket
  | .braceStart => some .brace
  | .templateStart => some .template
  | _ => none

def closes : TokenKind → Bool
  | .expressionEnd | .templateEnd | .bracketEnd | .braceEnd | .parenEnd => true
  | _ => false

def isLiteral : TokenKind → Bool
  | .string | .boolean | .null | .undefined | .number => true
  | _ => false

end TokenKind

namespace Opener

def mode : Opener → Mode
  | .template => .template
  | _ => .expression

end Opener

namespace Mode

def name : Mode → String
  | .body => "body"
  | .expression => "expression"
  | .template => "template"

def ofOpen : List Opener → Mode
  | [] => .body
  | opener :: _ => opener.mode

end Mode

/-- The open constructs after a token. A closing token closes the innermost construct, of whatever
kind it is. -/
def openAfter (opened : List Opener) (kind : TokenKind) : List Opener :=
  match kind.opens? with
  | some opener => opener :: opened
  | none => if kind.closes then opened.tail else opened

namespace Token

def inspect (t : Token) : String :=
  "Token(" ++ t.kind.name ++ ", " ++ Text.quoted t.value ++ ", pos=" ++ Number.intText t.position
    ++ ")"

/-- The position of the last token, zero if there is none. It is where errors at the end are. -/
def lastPosition (ts : List Token) : Nat := (ts.getLast?.map Token.position).getD 0

end Token

end MessageCatalog
