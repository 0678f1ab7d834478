import MessageCatalog.Token.SyntaxError

/-!
# Cursors

A place in a list of tokens, for looking ahead and back. The list never changes; only the place
moves. Looking back beyond the front of the list continues from its end, once.
-/
namespace MessageCatalog

structure Cursor where
  tokens : List Token
  place : Nat

namespace Cursor

def ofTokens (tokens : List Token) : Cursor := ⟨tokens, 0⟩

def isAtEnd (c : Cursor) : Bool := c.tokens.length ≤ c.place

def current (c : Cursor) : Option Token := c.tokens[c.place]?

/-- The token at a distance from the place, none after the end; `none` outside if the distance
leaves the list at its front and its length again. -/
def peek? (c : Cursor) (offset : Int) : Option (Option Token) :=
  let index := (c.place : Int) + offset
  if c.tokens.length ≤ index then some none
  else if 0 ≤ index then some c.tokens[index.toNat]?
  else
    let fromEnd := index + c.tokens.length
    if 0 ≤ fromEnd then some c.tokens[fromEnd.toNat]? else none

def endPosition (c : Cursor) : Nat := Token.lastPosition c.tokens

def advance (c : Cursor) : Except SyntaxError (Token × Cursor) :=
  match c.current with
  | some t => .ok (t, { c with place := c.place + 1 })
  | none => .error ⟨.unexpectedEnd, c.endPosition⟩

def isAt (c : Cursor) (kinds : List TokenKind) : Bool :=
  match c.current with
  | some t => kinds.contains t.kind
  | none => false

end Cursor

end MessageCatalog
