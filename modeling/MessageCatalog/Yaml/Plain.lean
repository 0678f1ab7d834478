import MessageCatalog.Yaml.Place

/-!
# Plain scalars

A plain scalar goes on until a colon at the end of a word, a comment, a character that delimits flow
collections if it stands in one, or a line that is not indented far enough. Line breaks inside of it
are folded.
-/
namespace MessageCatalog.Yaml

structure PlainScalar where
  text : List Char
  place : Place
  atLineStart : Bool

namespace PlainScalar

def isFlowDelimiter (c : Char) : Bool :=
  c == ',' || c == '[' || c == ']' || c == '{' || c == '}'

def wordLength (inFlow : Bool) : List Char → Nat
  | [] => 0
  | c :: rest =>
    if endsWord (some c) || (c == ':' && endsWord rest.head?) || (inFlow && isFlowDelimiter c) then 0
    else wordLength inFlow rest + 1

def blankLines : Nat → Place → List Char → List Char × Option Place
  | 0, p, breaks => (breaks, some p)
  | n + 1, p, breaks =>
    if p.peek 0 == some ' ' then blankLines n p.next breaks
    else if p.atBreak then
      let (lineBreak, after) := p.lineBreak
      if after.atDocumentMark then ([], none)
      else blankLines n after (breaks ++ lineBreak)
    else (breaks, some p)

/-- What separates a word from the next one: its text, folded, the place after it, and whether a
line was ended. There is no separation before the end of the scalar. -/
def separation (p : Place) : PlainScalar :=
  let spaces := p.ahead.takeWhile (· == ' ')
  let p := p.skipSpaces
  if p.atBreak then
    let (lineBreak, after) := p.lineBreak
    if after.atDocumentMark then ⟨[], after, true⟩
    else match blankLines after.ahead.length after [] with
      | (breaks, some place) => ⟨Place.fold lineBreak breaks, place, true⟩
      | (_, none) => ⟨[], after, true⟩
  else ⟨spaces, p, false⟩

def words (inFlow : Bool) (margin : Nat) : Nat → PlainScalar → List Char → PlainScalar
  | 0, s, text => { s with text := text }
  | n + 1, s, text =>
    let length := wordLength inFlow s.place.ahead
    if s.place.peek 0 == some '#' || length == 0 then { s with text := text }
    else
      let text := text ++ s.text ++ s.place.ahead.take length
      let gap := separation (s.place.skip length)
      if gap.text.isEmpty || (!inFlow && gap.place.column < margin) then { gap with text := text }
      else words inFlow margin n gap text

def read (inFlow : Bool) (margin : Nat) (p : Place) : PlainScalar :=
  words inFlow margin (p.ahead.length + 1) ⟨[], p, false⟩ []

end PlainScalar

end MessageCatalog.Yaml
