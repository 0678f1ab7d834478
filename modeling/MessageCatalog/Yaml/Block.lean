import MessageCatalog.Yaml.Fault
import MessageCatalog.Yaml.Place

/-!
# Block scalars

A block scalar is a header and the lines below it that are indented. The header says whether line
breaks are kept or folded, whether the break at the end is kept, and perhaps the indentation, which
else is that of the first line.
-/
namespace MessageCatalog.Yaml.Block

/-- What becomes of the line breaks at the end: only the first is kept, or none, or all. -/
inductive Chomping where
  | clip | strip | keep
deriving DecidableEq

structure Header where
  chomping : Chomping
  indentation : Option Nat

def chomping? (p : Place) : Option Chomping :=
  match p.peek 0 with
  | some '+' => some .keep
  | some '-' => some .strip
  | _ => none

def indentation? (p : Place) : Option Nat :=
  (p.peek 0).bind fun c => if c.isDigit then some (c.toNat - 48) else none

def header (p : Place) : Header × Place :=
  match chomping? p with
  | some chomping => match indentation? p.next with
    | some n => (⟨chomping, some n⟩, p.next.next)
    | none => (⟨chomping, none⟩, p.next)
  | none => match indentation? p with
    | some n => match chomping? p.next with
      | some chomping => (⟨chomping, some n⟩, p.next.next)
      | none => (⟨.clip, some n⟩, p.next)
    | none => (⟨.clip, none⟩, p)

def afterHeader (p : Place) : Except Fault Place :=
  let p := p.skipSpaces
  let p := if p.peek 0 == some '#' then p.skipLine else p
  if endsLine (p.peek 0) then .ok p.lineBreak.2 else .error .malformed

structure Opening where
  breaks : List Char
  firstWidth : Option Nat
  width : Nat
  place : Place

def opening : Nat → Opening → Opening
  | 0, o => o
  | n + 1, o =>
    if o.place.peek 0 == some ' ' then
      let after := o.place.next
      opening n { o with place := after, width := max o.width after.column }
    else if o.place.atBreak then
      let (lineBreak, after) := o.place.lineBreak
      opening n
        { o with
          breaks := o.breaks ++ lineBreak
          firstWidth := o.firstWidth.or (some o.place.column)
          place := after }
    else o

def indented (width : Nat) (p : Place) : Place :=
  p.skip (min (width - p.column) (p.ahead.takeWhile (· == ' ')).length)

def blankLines (width : Nat) : Nat → Place → List Char → List Char × Place
  | 0, p, breaks => (breaks, p)
  | n + 1, p, breaks =>
    let p := indented width p
    if p.atBreak then
      let (lineBreak, after) := p.lineBreak
      blankLines width n after (breaks ++ lineBreak)
    else (breaks, p)

structure Body where
  text : List Char
  lineBreak : List Char
  breaks : List Char
  place : Place

def joint (folded : Bool) (indentedLine : Bool) (b : Body) : List Char :=
  if folded && b.lineBreak == ['\n'] && !indentedLine
      && !(b.place.peek 0 == some ' ' || b.place.peek 0 == some '\t') then
    if b.breaks.isEmpty then [' '] else []
  else b.lineBreak

def lines (folded topLevel : Bool) (width : Nat) : Nat → Body → Body
  | 0, b => b
  | n + 1, b =>
    if b.place.column != width || b.place.ahead.isEmpty then b
    else
      let indentedLine := b.place.peek 0 == some ' ' || b.place.peek 0 == some '\t'
      let line := b.place.ahead.takeWhile fun c => !endsLine (some c)
      let (lineBreak, after) := b.place.skipLine.lineBreak
      let (breaks, after) := blankLines width (after.ahead.length + 1) after []
      let b : Body := ⟨b.text ++ b.breaks ++ line, lineBreak, breaks, after⟩
      if (topLevel && after.column == 0 && after.atDocumentMark)
          || after.column != width || after.ahead.isEmpty then b
      else lines folded topLevel width n { b with text := b.text ++ joint folded indentedLine b }

def chomp (b : Body) : Chomping → List Char
  | .clip => b.text ++ b.lineBreak
  | .strip => b.text
  | .keep => b.text ++ b.lineBreak ++ b.breaks

/-- Reads a block scalar whose lines begin at the margin or to the right of it. The place is at the
sign that begins the header. -/
def read (folded : Bool) (margin : Nat) (p : Place) : Except Fault (List Char × Place) := do
  let (header, p) := header p.next
  if header.indentation == some 0 then throw .malformed
  if !(endsLine (p.peek 0) || p.peek 0 == some ' ' || p.atBreak) then throw .malformed
  let p ← afterHeader p
  match header.indentation with
  | some n =>
    let width := max margin 1 + n - 1
    let (breaks, after) := blankLines width (p.ahead.length + 1) p []
    let body := lines folded false width (p.ahead.length + 1) ⟨[], [], breaks, after⟩
    return (chomp body header.chomping, body.place)
  | none =>
    let o := opening (p.ahead.length + 1) ⟨[], none, 0, p⟩
    if o.firstWidth.any fun first => 0 < first && first < o.width then throw .malformed
    let body := lines folded (margin == 0) (max margin o.width) (p.ahead.length + 1)
      ⟨[], [], o.breaks, o.place⟩
    return (chomp body header.chomping, body.place)

end MessageCatalog.Yaml.Block
