import MessageCatalog.Yaml.Fault
import MessageCatalog.Yaml.Place

/-!
# Quoted scalars

Between single quotes every character stands for itself and a quote is written twice. Between double
quotes a backslash begins an escape: of one character, of a code point in hexadecimal digits, or of
a line break. Line breaks are folded in both, and no document may be marked inside.
-/
namespace MessageCatalog.Yaml.Quoted

def escapes : List (Char × Char) :=
  [('0', '\x00'), ('a', '\x07'), ('b', '\x08'), ('t', '\t'), ('\t', '\t'), ('n', '\n'),
    ('v', '\x0b'), ('f', '\x0c'), ('r', '\r'), ('e', '\x1b'), (' ', ' '), ('"', '"'), ('/', '/'),
    ('\\', '\\'), ('N', '\u0085'), ('_', '\u00a0'), ('L', '\u2028'), ('P', '\u2029')]

def codeLength? : Char → Option Nat
  | 'x' => some 2
  | 'u' => some 4
  | 'U' => some 8
  | _ => none

def hexValue? (c : Char) : Option Nat :=
  if c.isDigit then some (c.toNat - 48)
  else if 'a' ≤ c ∧ c ≤ 'f' then some (c.toNat - 87)
  else if 'A' ≤ c ∧ c ≤ 'F' then some (c.toNat - 55)
  else none

def codePoint (length : Nat) (digits : List Char) : Except Fault Char :=
  let values := digits.filterMap hexValue?
  if values.length != length then .error .malformed
  else
    let code := values.foldl (fun n d => n * 16 + d) 0
    if 0x110000 ≤ code then .error (.scalar .noCharacter)
    else if 0xD800 ≤ code ∧ code ≤ 0xDFFF then .error .malformed
    else .ok (Char.ofNat code)

def blankLines : Nat → Place → List Char → Except Fault (List Char × Place)
  | 0, p, breaks => .ok (breaks, p)
  | n + 1, p, breaks =>
    if p.atDocumentMark then .error .malformed
    else
      let p := p.skipWhile fun c => c == ' ' || c == '\t'
      if p.atBreak then
        let (lineBreak, after) := p.lineBreak
        blankLines n after (breaks ++ lineBreak)
      else .ok (breaks, p)

def separation (p : Place) : Except Fault (List Char × Place) :=
  let isBlank (c : Char) : Bool := c == ' ' || c == '\t'
  let spaces := p.ahead.takeWhile isBlank
  let p := p.skipWhile isBlank
  if p.atBreak then do
    let (lineBreak, after) := p.lineBreak
    let (breaks, after) ← blankLines (after.ahead.length + 1) after []
    return (Place.fold lineBreak breaks, after)
  else return (spaces, p)

def escape (p : Place) : Except Fault (List Char × Place) :=
  match p.ahead with
  | [] => .error .malformed
  | c :: _ =>
    match escapes.lookup c, codeLength? c with
    | some d, _ => .ok ([d], p.next)
    | none, some length => do
      let d ← codePoint length (p.next.ahead.take length)
      return ([d], p.next.skip length)
    | none, none =>
      if isBreak c then
        let after := p.lineBreak.2
        blankLines (after.ahead.length + 1) after []
      else .error .malformed

def rest (quote : Char) : Nat → Place → List Char → Except Fault (List Char × Place)
  | 0, _, _ => .error .malformed
  | n + 1, p, text =>
    match p.ahead with
    | [] => .error .malformed
    | c :: following =>
      if c == quote then
        if quote == '\'' && following.head? == some '\'' then rest quote n (p.skip 2) (text ++ ['\''])
        else .ok (text, p.next)
      else if c == '\\' && quote == '"' then do
        let (escaped, after) ← escape p.next
        rest quote n after (text ++ escaped)
      else if c == ' ' || c == '\t' || isBreak c then do
        let (gap, after) ← separation p
        rest quote n after (text ++ gap)
      else rest quote n p.next (text ++ [c])

def read (quote : Char) (p : Place) : Except Fault (List Char × Place) :=
  rest quote (p.ahead.length + 1) p.next []

end MessageCatalog.Yaml.Quoted
