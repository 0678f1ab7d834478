import MessageCatalog.Rendering.Evaluation

/-!
# Functions of the host

What the functions do that a host offers to phrases, and the record of their calls. A call is
recorded with its arguments before it runs, so one that fails is recorded too. Phrases can be
rendered with any host; the one given here has functions that show how they were called.
-/
namespace MessageCatalog

structure HostCall where
  function : HostFunction
  arguments : List Value

structure Host where
  run : HostFunction → List Value → Except HostError Value

namespace Host

/-- Records a call and runs it. The helpers of a catalog do nothing outside of one. -/
def call (host : Host) (f : Callable) (arguments : List Value) : Eval (List HostCall) Value :=
  match f with
  | .host g => do
    modify (· ++ [⟨g, arguments⟩])
    match host.run g arguments with
    | .ok v => return v
    | .error e => throw (.host e)
  | .helper _ => return .undefined

def evaluate (host : Host) (phrase : Phrase) (locals : Locals) :
    Except RenderError (List Value) × List HostCall :=
  match phrase.evaluate host.call locals [] with
  | .ok parts calls => (.ok parts, calls)
  | .error e calls => (.error e, calls)

def noFunction (f : HostFunction) : HostError :=
  ⟨"NameError", "name '" ++ f.name ++ "' is not defined"⟩

def empty : Host := ⟨fun f _ => .error (noFunction f)⟩

def oneHalf : Number.Binary64 := Number.Binary64.ofRatio false Number.unitsPerOne 2

def joinArguments (arguments : List Value) : Except HostError String :=
  match Value.joinText? arguments with
  | some s => .ok s
  | none => .error ⟨"ValueError", Number.overlongIntegerMessage⟩

def showing : Host where
  run f arguments := match f.name with
    | "args" => .ok (.list arguments)
    | "tuple" => .ok (.tuple arguments)
    | "argc" => .ok (.int arguments.length)
    | "first" => .ok (arguments.head?.getD .undefined)
    | "concat" => (joinArguments arguments).map .str
    | "wrap" => (joinArguments arguments).map fun s => .str ("[" ++ s ++ "]")
    | "object" => .ok (.dict [(.str "args", .list arguments)])
    | "half" => .ok (.float oneHalf)
    | "null" => .ok .null
    | "undef" => .ok .undefined
    | "getter" => .ok (.function (.host ⟨"argc"⟩))
    | "fail" => .error ⟨"HostError", "boom"⟩
    | _ => .error (noFunction f)

end Host

end MessageCatalog
