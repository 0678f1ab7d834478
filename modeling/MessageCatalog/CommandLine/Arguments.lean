import MessageCatalog.Text.DecimalDigit

/-!
# Arguments

The arguments of a command line as words: options, operands and the mark after which everything is
an operand. A long option may be cut short as long as it is the only one that begins so, and its
value may follow after an equals sign. Numbers below zero and what holds a space are operands even
with a dash in front. Words are used up from the left, so a request for help counts only if nothing
before it is misused.
-/
namespace MessageCatalog.CommandLine

inductive Command where
  | tokens (text : String)
  | parse (text : String)
  | render (file key : String) (assignments : List String)
  | keys (file : String)
deriving DecidableEq

inductive Request where
  | command (c : Command)
  | information
  | misuse
deriving DecidableEq

inductive Word where
  | operand (s : String)
  | mark
  | information (wellFormed : Bool)
  | assignment (value : Option String)
  | unknownOption
  | ambiguousOption
deriving DecidableEq

structure Options where
  letters : List Char
  names : List String

namespace Options

def top : Options := ⟨['h', 'v'], ["--help", "--version"]⟩

def plain : Options := ⟨['h'], ["--help"]⟩

def rendering : Options := ⟨['h'], ["--help", "--var"]⟩

def splitValue (cs : List Char) : List Char × Option String :=
  match cs.dropWhile (· != '=') with
  | '=' :: value => (cs.takeWhile (· != '='), some (String.ofList value))
  | _ => (cs, none)

def isNegativeNumber (cs : List Char) : Bool :=
  let cs := if cs.getLast? == some '\n' then cs.dropLast else cs
  match cs with
  | '-' :: digits =>
    match digits.dropWhile Text.isDecimalDigit with
    | [] => !digits.isEmpty
    | '.' :: fraction => !fraction.isEmpty && fraction.all Text.isDecimalDigit
    | _ => false
  | _ => false

def otherWord (cs : List Char) : Word :=
  if isNegativeNumber cs || cs.contains ' ' then .operand (String.ofList cs) else .unknownOption

def named (name : String) (value : Option String) : Word :=
  if name == "--var" then .assignment value else .information value.isNone

/-- Whether an option of one letter may be followed by some characters in the same argument. They
are letters of options as well, up to one that is not known. None of them takes a value. -/
def mayFollow (o : Options) : List Char → Bool
  | [] => true
  | c :: rest => c != '=' && c != '-' && (!o.letters.contains c || o.mayFollow rest)

def word (o : Options) (s : String) : Word :=
  match s.toList with
  | ['-'] => .operand s
  | cs@('-' :: '-' :: _) =>
    let (start, value) := splitValue cs
    match o.names.filter fun name => start.isPrefixOf name.toList with
    | [] => otherWord cs
    | [name] => named name value
    | _ => .ambiguousOption
  | cs@('-' :: c :: tail) =>
    if o.letters.contains c then .information (o.mayFollow tail) else otherWord cs
  | _ => .operand s

def words (o : Options) : List String → List Word
  | [] => []
  | s :: rest => if s == "--" then .mark :: rest.map .operand else o.word s :: words o rest

end Options

structure Usage where
  operands : List String
  assignments : List String
  surplus : Bool
  afterOperand : Bool

namespace Usage

def empty : Usage := ⟨[], [], false, false⟩

def operand (u : Usage) (needed : Nat) (s : String) : Usage :=
  if u.operands.length < needed then { u with operands := u.operands ++ [s], afterOperand := true }
  else { u with surplus := true, afterOperand := false }

def assign (u : Usage) (s : String) : Usage :=
  { u with assignments := u.assignments ++ [s], afterOperand := false }

def unusable (u : Usage) : Usage := { u with surplus := true, afterOperand := false }

/-- The mark has to stand next to an operand. -/
def mark (u : Usage) (needed : Nat) (next : Option Word) : Usage :=
  match next with
  | some (.operand _) =>
    if u.afterOperand || u.operands.length < needed then { u with afterOperand := false }
    else u.unusable
  | _ => if u.afterOperand then { u with afterOperand := false } else u.unusable

end Usage

/-- Uses words from the left. There is no usage if information is asked for or if the words are
misused. -/
def useWords (needed : Nat) (u : Usage) : List Word → Except Request Usage
  | [] => if u.surplus || u.operands.length < needed then .error .misuse else .ok u
  | .operand s :: rest => useWords needed (u.operand needed s) rest
  | .mark :: rest => useWords needed (u.mark needed rest.head?) rest
  | .information wellFormed :: _ => .error (if wellFormed then .information else .misuse)
  | .assignment (some s) :: rest => useWords needed (u.assign s) rest
  | .assignment none :: .operand s :: rest => useWords needed (u.assign s) rest
  | .assignment none :: _ => .error .misuse
  | .unknownOption :: rest => useWords needed u.unusable rest
  | .ambiguousOption :: _ => .error .misuse

def useArguments (o : Options) (needed : Nat) (arguments : List String) : Except Request Usage :=
  let words := o.words arguments
  if words.contains .ambiguousOption then .error .misuse else useWords needed .empty words

def commandOf (name : String) (arguments : List String) : Except Request Command :=
  match name with
  | "tokens" => (useArguments .plain 1 arguments).map fun u => .tokens (u.operands.headD "")
  | "parse" => (useArguments .plain 1 arguments).map fun u => .parse (u.operands.headD "")
  | "keys" => (useArguments .plain 1 arguments).map fun u => .keys (u.operands.headD "")
  | "render" => (useArguments .rendering 2 arguments).map fun u =>
      .render (u.operands.headD "") (u.operands.tail.headD "") u.assignments
  | _ => .error .misuse

def requestOf (surplus : Bool) : List Word → List String → Request
  | .operand name :: _, _ :: arguments =>
    match commandOf name arguments with
    | .ok command => if surplus then .misuse else .command command
    | .error request => request
  | .information wellFormed :: _, _ => if wellFormed then .information else .misuse
  | .unknownOption :: words, _ :: arguments => requestOf true words arguments
  | _, _ => .misuse

def Request.ofArguments (arguments : List String) : Request :=
  let words := Options.top.words arguments
  if words.contains .ambiguousOption then .misuse else requestOf false words arguments

end MessageCatalog.CommandLine
