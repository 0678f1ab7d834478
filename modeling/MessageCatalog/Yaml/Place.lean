/-!
# Places in YAML text

Where a reader of YAML text stands: the characters ahead, with their index, line and column. Lines
end at a line feed, a carriage return, both together, a next line, a line separator or a paragraph
separator. A byte order mark takes no column.
-/
namespace MessageCatalog.Yaml

structure Place where
  ahead : List Char
  index : Nat
  line : Nat
  column : Nat
deriving DecidableEq

def isBreak (c : Char) : Bool :=
  c == '\n' || c == '\r' || c == '\u0085' || c == '\u2028' || c == '\u2029'

def endsLine : Option Char → Bool
  | none => true
  | some c => c == '\n' || c == '\r' || c == '\u0085'

def endsWord (next : Option Char) : Bool :=
  endsLine next || next == some ' ' || next == some '\t'

def isAllowed (c : Char) : Bool :=
  let n := c.toNat
  n == 0x9 || n == 0xA || n == 0xD || (0x20 ≤ n && n ≤ 0x7E) || n == 0x85 ||
    (0xA0 ≤ n && n ≤ 0xD7FF) || (0xE000 ≤ n && n ≤ 0xFFFD) || 0x10000 ≤ n

namespace Place

def ofText (s : String) : Place := ⟨s.toList, 0, 0, 0⟩

def peek (p : Place) (offset : Nat) : Option Char := p.ahead[offset]?

def next (p : Place) : Place :=
  match p.ahead with
  | [] => p
  | c :: rest =>
    if isBreak c && !(c == '\r' && rest.head? == some '\n') then ⟨rest, p.index + 1, p.line + 1, 0⟩
    else ⟨rest, p.index + 1, p.line, if c == '\ufeff' then p.column else p.column + 1⟩

def skip (p : Place) : Nat → Place
  | 0 => p
  | n + 1 => p.next.skip n

def skipWhile (p : Place) (f : Char → Bool) : Place := p.skip (p.ahead.takeWhile f).length

def skipSpaces (p : Place) : Place := p.skipWhile (· == ' ')

def skipLine (p : Place) : Place := p.skipWhile fun c => !endsLine (some c)

def atBreak (p : Place) : Bool := (p.peek 0).any isBreak

/-- The line break at a place and the place after it, if there is one. All but the separators of
lines and paragraphs are read as a line feed. -/
def lineBreak (p : Place) : List Char × Place :=
  match p.ahead with
  | '\r' :: '\n' :: _ => (['\n'], p.skip 2)
  | c :: _ =>
    if c == '\u2028' || c == '\u2029' then ([c], p.next)
    else if isBreak c then (['\n'], p.next)
    else ([], p)
  | [] => ([], p)

def atMark (p : Place) (c : Char) : Bool :=
  p.ahead.take 3 == [c, c, c] && endsWord (p.peek 3)

def atDocumentMark (p : Place) : Bool := p.atMark '-' || p.atMark '.'

/-- Lines that break inside a scalar are folded: one break counts as a space, further ones are
kept. -/
def fold (first breaks : List Char) : List Char :=
  if first != ['\n'] then first ++ breaks
  else if breaks.isEmpty then [' ']
  else breaks

end Place

end MessageCatalog.Yaml
