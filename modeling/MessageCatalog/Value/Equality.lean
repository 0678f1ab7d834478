import MessageCatalog.Entries
import MessageCatalog.Value.Basic

/-!
# Equality of values

Values compare by what they hold. Truth values count as the numbers one and zero, and numbers of
different kinds compare exactly, without rounding; dictionaries and sets compare without regard to
order. This is also the equality of dictionary keys, so `1`, `1.0` and `true` are one key.
-/
namespace MessageCatalog
open Number

inductive Quantity where
  | int (n : Int)
  | float (x : Binary64)

namespace Quantity

def same : Quantity → Quantity → Bool
  | .int m, .int n => m == n
  | .int m, .float y => y.sameInt m
  | .float x, .int n => x.sameInt n
  | .float x, .float y => x.same y

end Quantity

namespace Value

def quantity? : Value → Option Quantity
  | .bool b => some (.int (if b then 1 else 0))
  | .int n => some (.int n)
  | .float x => some (.float x)
  | _ => none

mutual

def same : Value → Value → Bool
  | .null, .null => true
  | .undefined, .undefined => true
  | .str s, .str t => s == t
  | .list xs, .list ys => sameItems xs ys
  | .tuple xs, .tuple ys => sameItems xs ys
  | .set xs, .set ys => xs.length == ys.length && sameMembers xs ys
  | .dict es, .dict fs => es.length == fs.length && sameEntries es fs
  | .date d, .date e => d == e
  | .function f, .function g => f == g
  | v, w =>
    match quantity? v, quantity? w with
    | some p, some q => p.same q
    | _, _ => false

def sameItems : List Value → List Value → Bool
  | [], [] => true
  | x :: xs, y :: ys => same x y && sameItems xs ys
  | _, _ => false

def sameMembers : List Value → List Value → Bool
  | [], _ => true
  | x :: xs, ys => ys.any (same x) && sameMembers xs ys

def sameEntries : List (Value × Value) → List (Value × Value) → Bool
  | [], _ => true
  | (k, v) :: es, fs => fs.any (fun f => same k f.1 && same v f.2) && sameEntries es fs

end

instance : BEq Value := ⟨same⟩

def find? (name : String) (entries : List (Value × Value)) : Option Value :=
  entries.lookup (.str name)

def ofEntries (pairs : List (Value × Value)) : Value := .dict (Entries.ofPairs pairs)

end Value

end MessageCatalog
