import MessageCatalog.Phrase.Basic
import MessageCatalog.Rendering.Failure
import MessageCatalog.Value.Text

/-!
# Evaluation

The value of an expression, given the values of names. A name without a value is undefined. A call
looks its function up first, then evaluates its arguments from left to right, then runs; how a
function runs is a parameter. A template takes the text of each part before it evaluates the next.
What functions do to the state stays done when something later fails.
-/
namespace MessageCatalog

/-- A computation on a state that may fail and keeps the state when it does. -/
abbrev Eval (σ α : Type) := EStateM RenderError σ α

def Eval.lift {σ α : Type} : Except RenderError α → Eval σ α
  | .ok a => pure a
  | .error e => throw e

def Value.write {σ : Type} (v : Value) : Eval σ String := .lift (written v.text?)

def Value.writeAll {σ : Type} (parts : List Value) : Eval σ String :=
  .lift (written (joinText? parts))

abbrev Locals := List (String × Value)

namespace Locals

def ofEntries (entries : List (Value × Value)) : Locals :=
  entries.filterMap fun e => match e.1 with
    | .str name => some (name, e.2)
    | _ => none

def value (locals : Locals) (name : String) : Value := (locals.lookup name).getD .undefined

end Locals

namespace Expr

variable {σ : Type}

def callee (locals : Locals) (name : String) : Except RenderError Callable :=
  match locals.value name with
  | .undefined => .error (.notDefined name)
  | .function f => .ok f
  | _ => .error (.notAFunction name)

mutual

def evaluate (call : Callable → List Value → Eval σ Value) (locals : Locals) :
    Expr → Eval σ Value
  | .literal v => pure v
  | .identifier name => pure (locals.value name)
  | .call name arguments => do
    let f ← match callee locals name with
      | .ok f => pure f
      | .error e => throw e
    let values ← evaluateAll call locals arguments
    call f values
  | .array elements => do
    let values ← evaluateAll call locals elements
    return .list values
  | .object properties => do
    let entries ← evaluateProperties call locals properties
    return .dict entries
  | .template parts => do
    let text ← evaluateText call locals parts
    return .str text
  | .unknown kind => throw (.unknownNode kind)

def evaluateAll (call : Callable → List Value → Eval σ Value) (locals : Locals) :
    List Expr → Eval σ (List Value)
  | [] => pure []
  | e :: rest => do
    let value ← evaluate call locals e
    let values ← evaluateAll call locals rest
    return value :: values

def evaluateProperties (call : Callable → List Value → Eval σ Value) (locals : Locals) :
    List (String × Expr) → Eval σ (List (Value × Value))
  | [] => pure []
  | (name, e) :: rest => do
    let value ← evaluate call locals e
    let entries ← evaluateProperties call locals rest
    return (.str name, value) :: entries

/-- The texts of expressions in a row, each taken before the next expression is evaluated. -/
def evaluateText (call : Callable → List Value → Eval σ Value) (locals : Locals) :
    List Expr → Eval σ String
  | [] => pure ""
  | e :: rest => do
    let value ← evaluate call locals e
    let first ← value.write
    let others ← evaluateText call locals rest
    return first ++ others

end

end Expr

def Phrase.evaluate {σ : Type} (call : Callable → List Value → Eval σ Value) (locals : Locals)
    (phrase : Phrase) : Eval σ (List Value) :=
  Expr.evaluateAll call locals phrase

end MessageCatalog
