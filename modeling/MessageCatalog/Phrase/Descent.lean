import MessageCatalog.Phrase.Assembly
import MessageCatalog.Token.Cursor

/-!
# Reading by descent

Tokens can also be read by readers that call each other, one for each construct of the language,
and move a cursor over the tokens. Most constructs are read in a loop, one round for each item in
them. Calls may be nested only so deep and a loop may take only so many rounds, so reading by
descent always ends; the rounds that loops have begun are counted.
-/
namespace MessageCatalog

inductive Halt where
  | failed (error : ParseError)
  | exhausted

structure Walk where
  cursor : Cursor
  rounds : Nat

abbrev Descent (α : Type) := EStateM Halt Walk α

def Walk.next (w : Walk) : Walk :=
  { w with cursor := { w.cursor with place := w.cursor.place + 1 } }

inductive Round (σ α : Type) where
  | again (state : σ)
  | done (result : α)

def Round.andThen {σ α : Type} (r : Round σ α) (next : σ → Descent α) : Descent α :=
  match r with
  | .again state => next state
  | .done result => return result

inductive ItemList where
  | call (position : Nat) (callee : String)
  | array (position : Nat)

namespace ItemList

def closer : ItemList → TokenKind
  | .call .. => .parenEnd
  | .array _ => .bracketEnd

def close : ItemList → List Expr → Expr
  | .call _ callee => .call callee
  | .array _ => .array

def position : ItemList → Nat
  | .call p _ | .array p => p

def unclosed (l : ItemList) : SyntaxError :=
  ⟨match l with
    | .call .. => .unclosedCall
    | .array _ => .unclosedArray, l.position⟩

/-- Whether a token right after a comma shows that an item is left out between them. -/
def showsGap (l : ItemList) (t : Token) : Bool := t.kind = .comma || t.kind = l.closer

end ItemList

namespace Descent

variable {σ α : Type}

def current : Descent (Option Token) := return (← get).cursor.current

def following : Descent (Option Token) := return ((← get).cursor.peek? 1).join

def atEnd : Descent Bool := return (← get).cursor.isAtEnd

def fail (error : SyntaxError) : Descent α := throw (.failed (.syntaxError error))

def unexpected (t : Token) : Descent α := fail ⟨.unexpectedToken t.kind t.value, t.position⟩

def unexpectedEnd : Descent α := do
  fail ⟨.unexpectedEnd, (← get).cursor.endPosition⟩

def advance : Descent Token := do
  match (← get).cursor.advance with
  | .ok (t, cursor) =>
    modify fun walk => { walk with cursor }
    return t
  | .error e => fail e

def beginRound : Descent Unit := modify fun walk => { walk with rounds := walk.rounds + 1 }

/-- Takes rounds until one of them has a result, but no more than `limit`. -/
def loop (round : σ → Descent (Round σ α)) : (limit : Nat) → σ → Descent α
  | 0, _ => throw .exhausted
  | limit + 1, state => do
    beginRound
    let r ← round state
    r.andThen (loop round limit)

def listRound (item : Descent Expr) (l : ItemList) (items : List Expr) :
    Descent (Round (List Expr) (List Expr)) := do
  match ← current with
  | none => fail l.unclosed
  | some t =>
    if t.kind = .comma then do
      let next ← following
      let _ ← advance
      return .again (if next.any l.showsGap then items ++ [.elided] else items)
    else if t.kind = l.closer then do
      let _ ← advance
      return .done items
    else do
      let e ← item
      return .again (items ++ [e])

def objectRound (value : Descent Expr) (opener : Token) (properties : List (String × Expr)) :
    Descent (Round (List (String × Expr)) Expr) := do
  if ← atEnd then fail ⟨.unclosedObject, opener.position⟩
  else do
    let t ← advance
    match t.kind with
    | .comma => return .again properties
    | .braceEnd => return .done (.object properties)
    | .identifier => fail ⟨.shorthandProperty t.value, t.position⟩
    | .propertyName => do
      let e ← value
      return .again (Entries.put t.value e properties)
    | _ => unexpected t

def templateRound (embedded : Token → Descent Expr) (opener : Token) (parts : List Expr) :
    Descent (Round (List Expr) Expr) := do
  match ← current with
  | none => fail ⟨.unclosedTemplate, opener.position⟩
  | some t => match t.kind with
    | .string => do
      let _ ← advance
      return .again (parts ++ [.text t.value])
    | .expressionStart => do
      let _ ← advance
      let e ← embedded t
      return .again (parts ++ [e])
    | .templateEnd => do
      let _ ← advance
      return .done (.template parts)
    | _ => unexpected t

def nextNode (interpolation : Token → Descent Expr) (nodes : Phrase) : Descent Phrase := do
  match ← current with
  | none => unexpectedEnd
  | some t => match t.kind with
    | .string => do
      let _ ← advance
      return nodes ++ [.text t.value]
    | .expressionStart => do
      let _ ← advance
      let e ← interpolation t
      return nodes ++ [e]
    | .expressionEnd | .braceEnd => do
      let _ ← advance
      return nodes
    | _ => unexpected t

def phraseRound (interpolation : Token → Descent Expr) (nodes : Phrase) :
    Descent (Round Phrase Phrase) := do
  let nodes ← nextNode interpolation nodes
  if ← atEnd then return .done nodes else return .again nodes

/-- What can be read by a call. A list is read after its opener, an interpolation after its opening
token. -/
inductive Task where
  | expression | literal | call | array | object | template
  | list (l : ItemList)
  | interpolation (opener : Token)
  | embedded (opener : Token)

abbrev Task.Result : Task → Type
  | .list _ => List Expr
  | _ => Expr

section Readers

variable (limit : Nat) (read : (task : Task) → Descent task.Result)

def readExpression : Descent Expr := do
  match ← current with
  | none => unexpectedEnd
  | some t => match t.kind with
    | .identifier => do
      let _ ← advance
      return .identifier t.value
    | .functionCall => read .call
    | .bracketStart => read .array
    | .braceStart => read .object
    | .templateStart => read .template
    | kind => if kind.isLiteral then read .literal else unexpected t

def readLiteral : Descent Expr := do
  let t ← advance
  match Assembly.literalValue t with
  | .ok v => return .literal v
  | .error e => throw (.failed e)

def readItems (listOf : Token → ItemList) : Descent Expr := do
  let opener ← advance
  let items ← read (.list (listOf opener))
  return (listOf opener).close items

/-- An item that is left out is found by the token after a comma, and before the first comma. -/
def readList (l : ItemList) : Descent (List Expr) := do
  let first ← current
  loop (listRound (read .expression) l) limit
    (if first.any (·.kind = .comma) then [.elided] else [])

def readObject : Descent Expr := do
  let opener ← advance
  loop (objectRound (read .expression) opener) limit []

def readTemplate : Descent Expr := do
  let opener ← advance
  loop (templateRound (fun t => read (.embedded t)) opener) limit []

def readInterpolation (opener : Token) : Descent Expr := do
  let e ← read .expression
  match ← current with
  | none => fail ⟨.unterminatedInterpolation, opener.position⟩
  | some t =>
    if t.kind = .expressionEnd then do
      let _ ← advance
      return e
    else unexpected t

def readEmbedded (opener : Token) : Descent Expr := do
  let e ← read .expression
  match ← current with
  | none => fail ⟨.unterminatedInTemplate, opener.position⟩
  | some t =>
    if t.kind = .templateEnd then fail ⟨.templateClosedInExpression, t.position⟩
    else if t.kind = .expressionEnd then do
      let _ ← advance
      return e
    else unexpected t

def perform : (task : Task) → Descent task.Result
  | .expression => readExpression read
  | .literal => readLiteral
  | .call => readItems read fun opener => .call opener.position opener.value
  | .array => readItems read fun opener => .array opener.position
  | .object => readObject limit read
  | .template => readTemplate limit read
  | .list l => readList limit read l
  | .interpolation opener => readInterpolation read opener
  | .embedded opener => readEmbedded read opener

end Readers

def read (limit : Nat) : (depth : Nat) → (task : Task) → Descent task.Result
  | 0, _ => throw .exhausted
  | depth + 1, task => perform limit (read limit depth) task

def readPhrase (limit depth : Nat) (ts : List Token) : Descent Phrase :=
  if ts.isEmpty then return [.text ""]
  else loop (phraseRound fun t => read limit depth (.interpolation t)) limit []

end Descent

def Walk.start (ts : List Token) : Walk := ⟨.ofTokens ts, 0⟩

def Phrase.descend (limit depth : Nat) (ts : List Token) : EStateM.Result Halt Walk Phrase :=
  Descent.readPhrase limit depth ts (.start ts)

end MessageCatalog
