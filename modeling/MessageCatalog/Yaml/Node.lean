import MessageCatalog.Yaml.Lexeme

/-!
# Nodes of a YAML document

The lexemes of a text as a tree of scalars, sequences and mappings. What is left out, such as the
value of a key on its own, is an empty plain scalar. A text holds at most one document.
-/
namespace MessageCatalog.Yaml

inductive Node where
  | scalar (plain : Bool) (text : String)
  | sequence (items : List Node)
  | mapping (entries : List (Node × Node))

namespace Node

def empty : Node := .scalar true ""

abbrev Parsed (α : Type) := α × List Lexeme

def expect (l : Lexeme) : List Lexeme → Except Fault (Parsed Unit)
  | first :: rest => if first = l then .ok ((), rest) else .error .malformed
  | [] => .error .malformed

def comes (choices : List Lexeme) : List Lexeme → Bool
  | first :: _ => choices.contains first
  | [] => false

/-- Where a node is read: the values of a block mapping may be sequences that are not indented. -/
inductive Position where
  | flow | block | blockValue
deriving DecidableEq

mutual

def read : Nat → Position → List Lexeme → Except Fault (Parsed Node)
  | 0, _, _ => .error .malformed
  | n + 1, position, ls =>
    match ls with
    | .scalar plain text :: rest => .ok (.scalar plain text, rest)
    | .flowSequenceStart :: rest => do
      let (items, rest) ← flowItems n true rest
      return (.sequence items, rest)
    | .flowMappingStart :: rest => do
      let (entries, rest) ← flowEntries n true rest
      return (.mapping entries, rest)
    | .item :: _ =>
      if position = .blockValue then do
        let (items, rest) ← looseItems n ls
        return (.sequence items, rest)
      else .error .malformed
    | .blockSequenceStart :: rest =>
      if position = .flow then .error .malformed
      else do
        let (items, rest) ← blockItems n rest
        return (.sequence items, rest)
    | .blockMappingStart :: rest =>
      if position = .flow then .error .malformed
      else do
        let (entries, rest) ← blockEntries n rest
        return (.mapping entries, rest)
    | _ => .error .malformed

def readUnless : Nat → Position → List Lexeme → List Lexeme → Except Fault (Parsed Node)
  | 0, _, _, _ => .error .malformed
  | n + 1, position, ends, ls => if comes ends ls then .ok (empty, ls) else read n position ls

def blockItems : Nat → List Lexeme → Except Fault (Parsed (List Node))
  | 0, _ => .error .malformed
  | n + 1, ls =>
    match ls with
    | .item :: rest => do
      let (node, rest) ← readUnless n .block [.item, .blockEnd] rest
      let (nodes, rest) ← blockItems n rest
      return (node :: nodes, rest)
    | .blockEnd :: rest => .ok ([], rest)
    | _ => .error .malformed

def looseItems : Nat → List Lexeme → Except Fault (Parsed (List Node))
  | 0, _ => .error .malformed
  | n + 1, ls =>
    match ls with
    | .item :: rest => do
      let (node, rest) ← readUnless n .block [.item, .key, .value, .blockEnd] rest
      let (nodes, rest) ← looseItems n rest
      return (node :: nodes, rest)
    | _ => .ok ([], ls)

def valueAfter : Nat → Position → List Lexeme → List Lexeme → Except Fault (Parsed Node)
  | 0, _, _, _ => .error .malformed
  | n + 1, position, ends, ls =>
    match ls with
    | .value :: rest => readUnless n position ends rest
    | _ => .ok (empty, ls)

def blockEntries : Nat → List Lexeme → Except Fault (Parsed (List (Node × Node)))
  | 0, _ => .error .malformed
  | n + 1, ls =>
    match ls with
    | .blockEnd :: rest => .ok ([], rest)
    | .key :: rest => do
      let (key, rest) ← readUnless n .blockValue [.key, .value, .blockEnd] rest
      let (value, rest) ← valueAfter n .blockValue [.key, .value, .blockEnd] rest
      let (entries, rest) ← blockEntries n rest
      return ((key, value) :: entries, rest)
    | .value :: _ => do
      let (value, rest) ← valueAfter n .blockValue [.key, .value, .blockEnd] ls
      let (entries, rest) ← blockEntries n rest
      return ((empty, value) :: entries, rest)
    | _ => .error .malformed

/-- Reads the items of a flow sequence and its end. An item with a colon is a mapping of one
entry. -/
def flowItems : Nat → Bool → List Lexeme → Except Fault (Parsed (List Node))
  | 0, _, _ => .error .malformed
  | n + 1, first, ls =>
    match ls with
    | .flowSequenceEnd :: rest => .ok ([], rest)
    | _ => do
      let ((), ls) ← if first then .ok ((), ls) else expect .separator ls
      match ls with
      | .flowSequenceEnd :: rest => return ([], rest)
      | .key :: rest =>
        let (key, rest) ← readUnless n .flow [.value, .separator, .flowSequenceEnd] rest
        let (value, rest) ← valueAfter n .flow [.separator, .flowSequenceEnd] rest
        let (nodes, rest) ← flowItems n false rest
        return (.mapping [(key, value)] :: nodes, rest)
      | _ =>
        let (node, rest) ← read n .flow ls
        let (nodes, rest) ← flowItems n false rest
        return (node :: nodes, rest)

def flowEntries : Nat → Bool → List Lexeme → Except Fault (Parsed (List (Node × Node)))
  | 0, _, _ => .error .malformed
  | n + 1, first, ls =>
    match ls with
    | .flowMappingEnd :: rest => .ok ([], rest)
    | _ => do
      let ((), ls) ← if first then .ok ((), ls) else expect .separator ls
      match ls with
      | .flowMappingEnd :: rest => return ([], rest)
      | .key :: rest =>
        let (key, rest) ← readUnless n .flow [.value, .separator, .flowMappingEnd] rest
        let (value, rest) ← valueAfter n .flow [.separator, .flowMappingEnd] rest
        let (entries, rest) ← flowEntries n false rest
        return ((key, value) :: entries, rest)
      | .value :: _ =>
        let (value, rest) ← valueAfter n .flow [.separator, .flowMappingEnd] ls
        let (entries, rest) ← flowEntries n false rest
        return ((empty, value) :: entries, rest)
      | _ =>
        let (key, rest) ← read n .flow ls
        let (entries, rest) ← flowEntries n false rest
        return ((key, empty) :: entries, rest)

end

def ofLexemes? (ls : List Lexeme) : Except Fault (Option Node) := do
  let bound := 3 * ls.length + 3
  match ls with
  | [] => return none
  | _ =>
    let (node, rest) ← match ls with
      | .documentStart :: rest =>
        if rest.isEmpty || comes [.documentStart, .documentEnd] rest then .ok (empty, rest)
        else read bound .block rest
      | _ => read bound .block ls
    match rest with
    | [] | [.documentEnd] => return some node
    | _ => throw .malformed

end Node

end MessageCatalog.Yaml
