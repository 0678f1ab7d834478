import MessageCatalog.Value.Equality

/-!
# Phrases

A phrase is a list of expressions: a literal for each run of plain text and the expression of each
interpolation. The properties of an object are in the order of their first mention.
-/
namespace MessageCatalog

inductive Expr where
  | literal (value : Value)
  | identifier (name : String)
  | call (callee : String) (arguments : List Expr)
  | array (elements : List Expr)
  | object (properties : List (String × Expr))
  | template (parts : List Expr)
  /-- A node of a kind that no rule of evaluation covers. -/
  | unknown (kind : String)

abbrev Phrase := List Expr

namespace Expr

def text (s : String) : Expr := .literal (.str s)

def elided : Expr := .literal .undefined

mutual

def same : Expr → Expr → Bool
  | .literal v, .literal w => v.same w
  | .identifier n, .identifier m => n == m
  | .call c xs, .call d ys => c == d && sameAll xs ys
  | .array xs, .array ys => sameAll xs ys
  | .object ps, .object qs => sameProperties ps qs
  | .template xs, .template ys => sameAll xs ys
  | .unknown k, .unknown l => k == l
  | _, _ => false

def sameAll : List Expr → List Expr → Bool
  | [], [] => true
  | x :: xs, y :: ys => same x y && sameAll xs ys
  | _, _ => false

def sameProperties : List (String × Expr) → List (String × Expr) → Bool
  | [], [] => true
  | (k, x) :: ps, (l, y) :: qs => k == l && same x y && sameProperties ps qs
  | _, _ => false

end

end Expr

def Phrase.same (p q : Phrase) : Bool := Expr.sameAll p q

end MessageCatalog
