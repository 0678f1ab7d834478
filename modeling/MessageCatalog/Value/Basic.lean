import MessageCatalog.Number.Binary64

/-!
# Values

The values that phrases are rendered with: those that a phrase can write down, those that come from
the context of a rendering, and functions. A function is either one that the host offers, known by
its name, or one of the helpers that a catalog offers to its own phrases.
-/
namespace MessageCatalog
open Number

structure Date where
  year : Nat
  month : Nat
  day : Nat
deriving DecidableEq

structure HostFunction where
  name : String
deriving DecidableEq

inductive Helper where
  | render | renderParts | selectPhrase | pluralRule | ordinalRule
deriving DecidableEq

inductive Callable where
  | host (function : HostFunction)
  | helper (function : Helper)
deriving DecidableEq

inductive Value where
  | null
  | undefined
  | bool (b : Bool)
  | int (n : Int)
  | float (x : Binary64)
  | str (s : String)
  | list (items : List Value)
  | tuple (items : List Value)
  | set (items : List Value)
  | dict (entries : List (Value × Value))
  | date (d : Date)
  | function (f : Callable)

namespace Value

def isAbsent : Value → Bool
  | .null | .undefined => true
  | _ => false

/-- Absent values, false, zeros and everything empty count as false in a condition. -/
def isTruthy : Value → Bool
  | .null | .undefined => false
  | .bool b => b
  | .int n => n != 0
  | .float x => !x.isZero
  | .str s => !s.isEmpty
  | .list items | .tuple items | .set items => !items.isEmpty
  | .dict entries => !entries.isEmpty
  | .date _ | .function _ => true

def typeName : Value → String
  | .null => "NoneType"
  | .undefined => "_Undefined"
  | .bool _ => "bool"
  | .int _ => "int"
  | .float _ => "float"
  | .str _ => "str"
  | .list _ => "list"
  | .tuple _ => "tuple"
  | .set _ => "set"
  | .dict _ => "dict"
  | .date _ => "date"
  | .function (.host _) => "function"
  | .function (.helper _) => "method"

mutual

/-- Whether a value can be a key: lists, dictionaries and sets cannot, nor tuples that hold one. -/
def isKey : Value → Bool
  | .list _ | .set _ | .dict _ => false
  | .tuple items => allKeys items
  | _ => true

def allKeys : List Value → Bool
  | [] => true
  | v :: rest => isKey v && allKeys rest

end

mutual

def holdsFunction : Value → Bool
  | .function _ => true
  | .list items | .tuple items => anyFunction items
  | .dict entries => anyEntryFunction entries
  | _ => false

def anyFunction : List Value → Bool
  | [] => false
  | v :: rest => holdsFunction v || anyFunction rest

def anyEntryFunction : List (Value × Value) → Bool
  | [] => false
  | (k, v) :: rest => holdsFunction k || holdsFunction v || anyEntryFunction rest

end

end Value

end MessageCatalog
