import MessageCatalog.Value.Equality
import MessageCatalog.Yaml.Node
import MessageCatalog.Yaml.Schema

/-!
# Values of YAML documents

A document as a value: sequences are lists, mappings are dictionaries, a scalar in quotes or in a
block is a string, and a plain scalar is what it stands for. No two keys of a mapping may be equal.
The entries of a mapping under the merge key come before its own, which may replace them.
-/
namespace MessageCatalog.Yaml

/-- Whether two keys are one. Two floats that are no number are one key, though they are not equal.
-/
def sameKey : Value → Value → Bool
  | .float .nan, .float .nan => true
  | v, w => v == w

def isMergeKey : Node → Bool
  | .scalar true text => text == "<<"
  | _ => false

def asKey (v : Value) : Except Fault Value :=
  let key := match v with
    | .list items => .tuple items
    | v => v
  if key.isKey then .ok key else .error .malformed

namespace Node

mutual

def value : Node → Except Fault Value
  | .scalar false text => .ok (.str text)
  | .scalar true text =>
    match Schema.resolve text with
    | .error fault => .error (.scalar fault)
    | .ok (.value v) => .ok v
    | .ok .merge | .ok .default => .error .malformed
  | .sequence items => do return .list (← values items)
  | .mapping entries => do return .dict (← dictionary entries)

def values : List Node → Except Fault (List Value)
  | [] => .ok []
  | node :: rest => do
    let v ← value node
    return v :: (← values rest)

def key : Node → Except Fault Value
  | .scalar true "=" => .ok (.str "=")
  | node => do asKey (← value node)

def dictionary (entries : List (Node × Node)) : Except Fault (List (Value × Value)) := do
  let merged ← mergedEntries false entries
  ownEntries merged.isEmpty merged entries

def mergedEntries (found : Bool) : List (Node × Node) → Except Fault (List (Value × Value))
  | [] => .ok []
  | (k, v) :: rest =>
    if isMergeKey k then
      if found then .error .malformed
      else do
        let entries ← mergeValue v
        return entries ++ (← mergedEntries (!entries.isEmpty) rest)
    else mergedEntries found rest

def mergeValue : Node → Except Fault (List (Value × Value))
  | .mapping entries => dictionary entries
  | .sequence items => mergeItems items
  | .scalar .. => .error .malformed

def mergeItems : List Node → Except Fault (List (Value × Value))
  | [] => .ok []
  | .mapping entries :: rest => do
    let first ← dictionary entries
    return Entries.overlay (← mergeItems rest) first
  | _ => .error .malformed

/-- Puts the entries that are not under the merge key on top of others. No key may be there yet if
keys are to be distinct. -/
def ownEntries (distinct : Bool) (dict : List (Value × Value)) :
    List (Node × Node) → Except Fault (List (Value × Value))
  | [] => .ok dict
  | (k, v) :: rest =>
    if isMergeKey k then ownEntries distinct dict rest
    else do
      let name ← key k
      let v ← value v
      if distinct && dict.any (sameKey name ·.1) then throw .malformed
      ownEntries distinct (Entries.put name v dict) rest

end

end Node

def read (s : String) : Except Fault Value := do
  match ← Node.ofLexemes? (← Lexeme.ofText s) with
  | none => return .null
  | some node => node.value

end MessageCatalog.Yaml
