import MessageCatalog.Yaml.Block
import MessageCatalog.Yaml.Plain
import MessageCatalog.Yaml.Quoted

/-!
# Lexemes of YAML text

The text as a list of scalars, delimiters of flow collections, and starts and ends of block
collections, which follow from the columns at which lines begin. That a scalar or a flow collection
is a key is known only when the colon after it is met, so every lexeme keeps room in front of it for
the marks of a key. Anchors, aliases, tags and directives are not read: text with one of them is
refused as malformed.
-/
namespace MessageCatalog.Yaml

inductive Lexeme where
  | documentStart | documentEnd
  | blockSequenceStart | blockMappingStart | blockEnd
  | flowSequenceStart | flowSequenceEnd | flowMappingStart | flowMappingEnd
  | separator
  | item
  | key
  | value
  | scalar (plain : Bool) (text : String)
deriving DecidableEq

inductive FlowKind where
  | sequence | mapping
deriving DecidableEq

structure Slot where
  marks : List Lexeme
  lexeme : Lexeme

/-- A place where a key may have begun: the number of open flow collections around it, the slot of
its first lexeme, and whether it has to be a key because the line begins at the column of an open
block collection. -/
structure PossibleKey where
  depth : Nat
  slot : Nat
  required : Bool
  place : Place

/-- How far the text has been read. The margin is the first column to the right of the indentation
of the innermost block collection, zero outside of all. -/
structure Reading where
  place : Place
  slots : Array Slot
  flows : List FlowKind
  margin : Nat
  margins : List Nat
  keyAllowed : Bool
  keys : List PossibleKey

namespace Reading

def ofText (s : String) : Reading := ⟨.ofText s, #[], [], 0, [], true, []⟩

def inFlow (r : Reading) : Bool := !r.flows.isEmpty

def push (r : Reading) (l : Lexeme) : Reading := { r with slots := r.slots.push ⟨[], l⟩ }

def take (r : Reading) (length : Nat) (l : Lexeme) : Reading :=
  { r.push l with place := r.place.skip length }

def skipBlanks (inFlow : Bool) : Nat → Place → Bool → Place × Bool
  | 0, p, crossed => (p, crossed)
  | n + 1, p, crossed =>
    let p := p.skipWhile fun c => c == ' ' || (inFlow && c == '\t')
    let p := if p.peek 0 == some '#' then p.skipLine else p
    if p.atBreak then skipBlanks inFlow n p.lineBreak.2 true else (p, crossed)

/-- Goes on to the next lexeme. A byte order mark is skipped at the start of the text, and a key is
allowed at the start of a line outside of flow collections. -/
def toNext (r : Reading) : Reading :=
  let p := if r.place.index == 0 && r.place.peek 0 == some '\ufeff' then r.place.next else r.place
  let (p, crossed) := skipBlanks r.inFlow (p.ahead.length + 1) p false
  { r with place := p, keyAllowed := r.keyAllowed || (crossed && !r.inFlow) }

def dropStale (r : Reading) : Except Fault Reading :=
  let isStale (k : PossibleKey) : Bool :=
    k.place.line != r.place.line || k.place.index + 1024 < r.place.index
  if r.keys.any fun k => isStale k && k.required then .error .malformed
  else .ok { r with keys := r.keys.filter (!isStale ·) }

def dropKey (r : Reading) : Except Fault Reading :=
  let isHere (k : PossibleKey) : Bool := k.depth == r.flows.length
  if r.keys.any fun k => isHere k && k.required then .error .malformed
  else .ok { r with keys := r.keys.filter (!isHere ·) }

def saveKey (r : Reading) : Except Fault Reading :=
  if r.keyAllowed then do
    let r ← r.dropKey
    let required := !r.inFlow && r.margin == r.place.column + 1
    return { r with keys := ⟨r.flows.length, r.slots.size, required, r.place⟩ :: r.keys }
  else return r

def endedBlocks (limit : Nat) : Nat → List Nat → Nat × Nat × List Nat
  | margin, [] => (0, margin, [])
  | margin, outer :: rest =>
    if limit < margin then
      let (n, margin, margins) := endedBlocks limit outer rest
      (n + 1, margin, margins)
    else (0, margin, outer :: rest)

def closeBlocks (r : Reading) (limit : Nat) : Reading :=
  if r.inFlow then r
  else
    let (n, margin, margins) := endedBlocks limit r.margin r.margins
    { r with
      slots := r.slots ++ Array.replicate n ⟨[], .blockEnd⟩
      margin := margin
      margins := margins }

def openBlock? (r : Reading) (column : Nat) : Option Reading :=
  if r.margin ≤ column then
    some { r with margin := column + 1, margins := r.margin :: r.margins }
  else none

def openBlock (r : Reading) (start : Lexeme) : Reading :=
  match r.openBlock? r.place.column with
  | some opened => opened.push start
  | none => r

def documentMark (r : Reading) (l : Lexeme) : Except Fault Reading := do
  let r ← (r.closeBlocks 0).dropKey
  return { r.take 3 l with keyAllowed := false }

def flowStart (r : Reading) (kind : FlowKind) (l : Lexeme) : Except Fault Reading := do
  let r ← r.saveKey
  return { r.take 1 l with flows := kind :: r.flows, keyAllowed := true }

def flowEnd (r : Reading) (l : Lexeme) : Except Fault Reading := do
  let r ← r.dropKey
  return { r.take 1 l with flows := r.flows.tail, keyAllowed := false }

def separator (r : Reading) : Except Fault Reading := do
  let r ← r.dropKey
  return { r.take 1 .separator with keyAllowed := true }

def item (r : Reading) : Except Fault Reading := do
  if !r.inFlow && !r.keyAllowed then throw .malformed
  let r := if r.inFlow then r else r.openBlock .blockSequenceStart
  let r ← r.dropKey
  return { r.take 1 .item with keyAllowed := true }

def explicitKey (r : Reading) : Except Fault Reading := do
  if !r.inFlow && !r.keyAllowed then throw .malformed
  let r := if r.inFlow then r else r.openBlock .blockMappingStart
  let r ← r.dropKey
  return { r.take 1 .key with keyAllowed := !r.inFlow }

def markKey (r : Reading) (k : PossibleKey) : Reading :=
  let (marks, r) :=
    if r.inFlow then ([.key], r)
    else match r.openBlock? k.place.column with
      | some opened => ([.blockMappingStart, .key], opened)
      | none => ([.key], r)
  { r with slots := r.slots.modify k.slot fun s => { s with marks := marks ++ s.marks } }

def value (r : Reading) : Except Fault Reading := do
  match r.keys.find? (·.depth == r.flows.length) with
  | some k =>
    let r := { r with keys := r.keys.filter (·.depth != r.flows.length) }
    return { (r.markKey k).take 1 .value with keyAllowed := false }
  | none =>
    if !r.inFlow && !r.keyAllowed then throw .malformed
    let r := if r.inFlow then r else r.openBlock .blockMappingStart
    let r ← r.dropKey
    return { r.take 1 .value with keyAllowed := !r.inFlow }

def blockScalar (r : Reading) (folded : Bool) : Except Fault Reading := do
  let r ← r.dropKey
  let (text, place) ← Block.read folded r.margin r.place
  return { r.push (.scalar false (String.ofList text)) with place := place, keyAllowed := true }

def quotedScalar (r : Reading) (quote : Char) : Except Fault Reading := do
  let r ← r.saveKey
  let (text, place) ← Quoted.read quote r.place
  return { r.push (.scalar false (String.ofList text)) with place := place, keyAllowed := false }

def plainScalar (r : Reading) : Except Fault Reading := do
  let r ← r.saveKey
  let s := PlainScalar.read r.inFlow r.margin r.place
  return { r.push (.scalar true (String.ofList s.text)) with
    place := s.place, keyAllowed := s.atLineStart }

/-- Whether a colon begins a value. Outside of flow collections and in flow sequences a word has to
end after it. In flow mappings this is asked only of the second of two colons, if a key that began
further out may still be going on. -/
def beginsValue (r : Reading) (keyGoesOn : Bool) : Bool :=
  let wordEnds := endsWord (r.place.peek 1)
  match r.flows.head? with
  | none | some .sequence => wordEnds
  | some .mapping => wordEnds || !(keyGoesOn && r.slots.back?.any (·.lexeme == .value))

def isIndicator (c : Char) : Bool :=
  isBreak c || c == ' ' || c == '\t' || "-?:,[]\x7b\x7d#&*!|>'\"%@`".contains c

def beginsPlain (r : Reading) (c : Char) : Bool :=
  let wordEnds := endsWord (r.place.peek 1)
  !isIndicator c
    || (c == '-' && !wordEnds)
    || (c == ':' && r.inFlow && !(r.place.peek 1 == some ' ' || r.place.peek 1 == some '\t'))
    || (!wordEnds && !r.inFlow && (c == '?' || c == ':'))

def lexeme (r : Reading) (keyGoesOn : Bool) (c : Char) : Except Fault Reading :=
  let wordEnds := endsWord (r.place.peek 1)
  let atStart := r.place.column == 0
  if c == '%' && atStart then .error .malformed
  else if atStart && r.place.atMark '-' then r.documentMark .documentStart
  else if atStart && r.place.atMark '.' then r.documentMark .documentEnd
  else if c == '[' then r.flowStart .sequence .flowSequenceStart
  else if c == '\x7b' then r.flowStart .mapping .flowMappingStart
  else if c == ']' then r.flowEnd .flowSequenceEnd
  else if c == '\x7d' then r.flowEnd .flowMappingEnd
  else if c == ',' then r.separator
  else if c == '-' && wordEnds then r.item
  else if c == '?' && (r.inFlow || wordEnds) then r.explicitKey
  else if c == ':' && r.beginsValue keyGoesOn then r.value
  else if (c == '|' || c == '>') && !r.inFlow then r.blockScalar (c == '>')
  else if c == '\'' || c == '"' then r.quotedScalar c
  else if r.beginsPlain c then r.plainScalar
  else .error .malformed

def run : Nat → Reading → Except Fault Reading
  | 0, _ => .error .malformed
  | n + 1, r => do
    let r ← r.dropStale
    let keyGoesOn := !r.keys.isEmpty
    let r ← r.toNext.dropStale
    let r := r.closeBlocks (r.place.column + 1)
    match r.place.peek 0 with
    | none => (r.closeBlocks 0).dropKey
    | some c => run n (← r.lexeme keyGoesOn c)

end Reading

def Lexeme.ofText (s : String) : Except Fault (List Lexeme) := do
  if !s.toList.all isAllowed then throw .malformed
  let r ← (Reading.ofText s).run (s.length + 1)
  return r.slots.toList.flatMap fun slot => slot.marks ++ [slot.lexeme]

end MessageCatalog.Yaml
