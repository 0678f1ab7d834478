import MessageCatalog.Text.Blank
import MessageCatalog.Yaml.Document

/-!
# Variables

A variable on the command line is a name, an equals sign and a value, which is read as a YAML
scalar. Text that is no YAML stands for itself, and so does text that would be read as null but does
not say so.
-/
namespace MessageCatalog.CommandLine

inductive VariableError where
  | noValue (spec : String)
  | noName (spec : String)
  | scalar (fault : Yaml.ScalarFault)
deriving DecidableEq

def VariableError.message : VariableError → String
  | .noValue spec => "Invalid variable format '" ++ spec ++ "'. Expected 'NAME=VALUE'"
  | .noName spec => "Invalid variable format '" ++ spec ++ "'. Name is empty"
  | .scalar fault => fault.message

def variableValue (raw : String) : Except Yaml.ScalarFault Value :=
  match Yaml.read raw with
  | .error .malformed => .ok (.str raw)
  | .error (.scalar fault) => .error fault
  | .ok .null =>
    let trimmed := Text.trim raw
    .ok (if trimmed == "null" || trimmed == "~" then .null else .str raw)
  | .ok v => .ok v

def variableOf (spec : String) : Except VariableError (String × Value) :=
  let cs := spec.toList
  match cs.dropWhile (· != '=') with
  | [] => .error (.noValue spec)
  | _ :: raw =>
    let name := Text.trim (String.ofList (cs.takeWhile (· != '=')))
    if name.isEmpty then .error (.noName spec)
    else match variableValue (String.ofList raw) with
      | .ok v => .ok (name, v)
      | .error fault => .error (.scalar fault)

def contextOf : List String → Except VariableError (List (Value × Value))
  | [] => .ok []
  | spec :: rest => do
    let (name, v) ← variableOf spec
    let others ← contextOf rest
    return Entries.overlay [(.str name, v)] others

end MessageCatalog.CommandLine
