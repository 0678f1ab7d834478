import MessageCatalog.Number.Numeral
import MessageCatalog.Phrase.Basic
import MessageCatalog.Token.Scan

/-!
# Assembling phrases

Tokens are read one by one. What has been read of each open construct is kept on a stack, the
innermost construct first; a token either starts a construct, or adds to the innermost one, or
closes it and hands the finished expression to the construct around it. A token that the innermost
construct cannot take is an error at its place, and so is a construct that is still open after the
last token.

Items of calls and arrays need no commas between them. A comma with no item before it leaves an
undefined item, and so does the end after a comma.
-/
namespace MessageCatalog

inductive ListEnd where
  | opened | comma | item
deriving DecidableEq

/-- An open construct, with the position where it was opened and what has been read of it. -/
inductive Construct where
  | interpolation (position : Nat) (expression : Option Expr)
  | call (position : Nat) (callee : String) (items : List Expr) (last : ListEnd)
  | array (position : Nat) (items : List Expr) (last : ListEnd)
  | object (position : Nat) (properties : List (String × Expr)) (pending : Option String)
  | template (position : Nat) (parts : List Expr)

namespace Construct

def opener : Construct → Opener
  | .interpolation .. => .interpolation
  | .call .. => .call
  | .array .. => .bracket
  | .object .. => .brace
  | .template .. => .template

end Construct

structure Assembly where
  parts : List Expr
  stack : List Construct

namespace ListEnd

def atComma (items : List Expr) : ListEnd → List Expr
  | .item => items
  | _ => items ++ [.elided]

def atClose (items : List Expr) : ListEnd → List Expr
  | .comma => items ++ [.elided]
  | _ => items

end ListEnd

namespace Assembly

def start : Assembly := ⟨[], []⟩

def push (s : Assembly) (c : Construct) : Assembly := { s with stack := c :: s.stack }

def update (s : Assembly) (c : Construct) : Assembly := { s with stack := c :: s.stack.tail }

/-- Hands a finished expression to the innermost construct. A construct that awaits none stays as
it is. -/
def deliver (s : Assembly) (e : Expr) : Assembly :=
  match s.stack with
  | [] => { s with parts := s.parts ++ [e] }
  | .interpolation p none :: _ => s.update (.interpolation p (some e))
  | .call p callee items _ :: _ => s.update (.call p callee (items ++ [e]) .item)
  | .array p items _ :: _ => s.update (.array p (items ++ [e]) .item)
  | .object p properties (some key) :: _ => s.update (.object p (Entries.put key e properties) none)
  | .template p parts :: _ => s.update (.template p (parts ++ [e]))
  | .interpolation _ (some _) :: _ | .object _ _ none :: _ => s

def close (s : Assembly) (e : Expr) : Assembly := deliver { s with stack := s.stack.tail } e

def fail (fault : SyntaxFault) (position : Nat) : Except ParseError Assembly :=
  .error (.syntaxError ⟨fault, position⟩)

def unexpected (t : Token) : Except ParseError Assembly :=
  fail (.unexpectedToken t.kind t.value) t.position

def numberValue? (text : String) : Option Value :=
  if text.toList.contains '.' then (Number.readFloat? text).map .float
  else (Number.readInteger? text).map .int

def literalValue (t : Token) : Except ParseError Value :=
  match t.kind with
  | .boolean => .ok (.bool (t.value == "true"))
  | .null => .ok .null
  | .undefined => .ok .undefined
  | .number => match numberValue? t.value with
    | some v => .ok v
    | none => .error (.malformedNumber t.value)
  | _ => .ok (.str t.value)

def expression (s : Assembly) (t : Token) : Except ParseError Assembly :=
  match t.kind with
  | .identifier => .ok (s.deliver (.identifier t.value))
  | .functionCall => .ok (s.push (.call t.position t.value [] .opened))
  | .bracketStart => .ok (s.push (.array t.position [] .opened))
  | .braceStart => .ok (s.push (.object t.position [] none))
  | .templateStart => .ok (s.push (.template t.position []))
  | kind => if kind.isLiteral then (literalValue t).map fun v => s.deliver (.literal v)
    else unexpected t

def textOr (s : Assembly) (t : Token) (other : Except ParseError Assembly) :
    Except ParseError Assembly :=
  match t.kind with
  | .string => .ok (s.deliver (.text t.value))
  | .expressionStart => .ok (s.push (.interpolation t.position none))
  | _ => other

def inTemplate : List Construct → Bool
  | .template .. :: _ => true
  | _ => false

/-- Reads one token. Outside of interpolations a closing brace has no meaning and is dropped. -/
def step (s : Assembly) (t : Token) : Except ParseError Assembly :=
  match s.stack with
  | [] => s.textOr t (match t.kind with
    | .expressionEnd | .braceEnd => .ok s
    | _ => unexpected t)
  | .interpolation _ none :: _ => s.expression t
  | .interpolation _ (some e) :: below => match t.kind with
    | .expressionEnd => .ok (s.close e)
    | .templateEnd =>
      if inTemplate below then fail .templateClosedInExpression t.position else unexpected t
    | _ => unexpected t
  | .call p callee items last :: _ => match t.kind with
    | .comma => .ok (s.update (.call p callee (last.atComma items) .comma))
    | .parenEnd => .ok (s.close (.call callee (last.atClose items)))
    | _ => s.expression t
  | .array p items last :: _ => match t.kind with
    | .comma => .ok (s.update (.array p (last.atComma items) .comma))
    | .bracketEnd => .ok (s.close (.array (last.atClose items)))
    | _ => s.expression t
  | .object p properties none :: _ => match t.kind with
    | .comma => .ok s
    | .braceEnd => .ok (s.close (.object properties))
    | .identifier => fail (.shorthandProperty t.value) t.position
    | .propertyName => .ok (s.update (.object p properties (some t.value)))
    | _ => unexpected t
  | .object _ _ (some _) :: _ => s.expression t
  | .template _ parts :: _ => s.textOr t (match t.kind with
    | .templateEnd => .ok (s.close (.template parts))
    | _ => unexpected t)

def endFault? (s : Assembly) (lastPosition : Nat) : Option SyntaxError :=
  match s.stack with
  | [] => none
  | .interpolation _ none :: _ | .object _ _ (some _) :: _ => some ⟨.unexpectedEnd, lastPosition⟩
  | .interpolation p (some _) :: below =>
    some ⟨if inTemplate below then .unterminatedInTemplate else .unterminatedInterpolation, p⟩
  | .call p .. :: _ => some ⟨.unclosedCall, p⟩
  | .array p .. :: _ => some ⟨.unclosedArray, p⟩
  | .object p _ none :: _ => some ⟨.unclosedObject, p⟩
  | .template p _ :: _ => some ⟨.unclosedTemplate, p⟩

def run (s : Assembly) : List Token → Except ParseError Assembly
  | [] => .ok s
  | t :: ts => match s.step t with
    | .ok s' => s'.run ts
    | .error e => .error e

end Assembly

namespace Phrase

def ofTokens (ts : List Token) : Except ParseError Phrase :=
  if ts.isEmpty then .ok [.text ""]
  else match Assembly.start.run ts with
    | .error e => .error e
    | .ok s => match s.endFault? (Token.lastPosition ts) with
      | some e => .error (.syntaxError e)
      | none => .ok s.parts

def parse (text : String) : Except ParseError Phrase :=
  match Token.scan text with
  | .error e => .error (.syntaxError e)
  | .ok ts => ofTokens ts

end Phrase

end MessageCatalog
