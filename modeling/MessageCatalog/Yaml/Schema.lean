import MessageCatalog.Number.Numeral
import MessageCatalog.Value.Text
import MessageCatalog.Yaml.Fault

/-!
# Plain scalars as values

What a plain scalar stands for is told by its form: null, a truth value, a float, an integer in one
of four bases, a day, or else its own text. An underscore among digits has no meaning, and only
decimal integers are subject to the digit limit. A day with a time of day is read as its text.
-/
namespace MessageCatalog.Yaml.Schema
open Number

/-- Two signs that are no values of their own: the one stands for an entry whose own entries are
merged into the mapping around it, the other for the value of a mapping on its own. -/
inductive Resolved where
  | value (v : Value)
  | merge
  | default

def isSign (c : Char) : Bool := c == '-' || c == '+'

def dropSign : List Char → List Char
  | c :: rest => if isSign c then rest else c :: rest
  | [] => []

def isNegative (cs : List Char) : Bool := cs.head? == some '-'

def isDigitOrLine (c : Char) : Bool := c.isDigit || c == '_'

def isHex (c : Char) : Bool := c.isDigit || ('a' ≤ c && c ≤ 'f') || ('A' ≤ c && c ≤ 'F')

def isExponent (signRequired : Bool) : List Char → Bool
  | c :: rest =>
    (c == 'e' || c == 'E') && (!signRequired || rest.head?.any isSign) &&
      !(dropSign rest).isEmpty && (dropSign rest).all Char.isDigit
  | [] => false

/-- Whether the text has the form of a float with digits: digits with a point after the first of
them and perhaps an exponent, digits and an exponent, or a point, digits and perhaps an exponent
with a sign. -/
def isFloat (cs : List Char) : Bool :=
  let cs := dropSign cs
  let whole := cs.takeWhile isDigitOrLine
  let rest := cs.dropWhile isDigitOrLine
  if whole.head?.any Char.isDigit then
    match rest with
    | '.' :: rest =>
      let rest := rest.dropWhile isDigitOrLine
      rest.isEmpty || isExponent false rest
    | _ => isExponent false rest
  else match cs with
    | '.' :: rest =>
      let exponent := rest.dropWhile isDigitOrLine
      !(rest.takeWhile isDigitOrLine).isEmpty && (exponent.isEmpty || isExponent true exponent)
    | _ => false

def withoutLines (cs : List Char) : List Char := cs.filter (· != '_')

def float (cs : List Char) : Except ScalarFault Value :=
  let cs := withoutLines cs
  match readFloat? (String.ofList cs) with
  | some x => .ok (.float x)
  | none => .error (.noNumber (String.ofList ((dropSign cs).map Char.toLower)))

def integerForm? (cs : List Char) : Option (Nat × List Char) :=
  let digits := dropSign cs
  if digits.isEmpty || !cs.head?.any (fun c => isSign c || c.isDigit) then none
  else match digits with
    | '0' :: 'b' :: rest =>
      if !rest.isEmpty && rest.all fun c => c == '0' || c == '1' || c == '_' then some (2, rest)
      else none
    | '0' :: 'o' :: rest =>
      if !rest.isEmpty && rest.all fun c => ('0' ≤ c && c ≤ '7') || c == '_' then some (8, rest)
      else none
    | '0' :: 'x' :: rest =>
      if !rest.isEmpty && rest.all fun c => isHex c || c == '_' then some (16, rest)
      else none
    | _ => if digits.all isDigitOrLine then some (10, digits) else none

def digitOf (c : Char) : Nat :=
  if c.isDigit then c.toNat - 48 else if 'a' ≤ c then c.toNat - 87 else c.toNat - 55

def integer (negative : Bool) (base : Nat) (digits : List Char) : Except ScalarFault Value :=
  match withoutLines digits with
  | [] => .error (.noDigits base)
  | digits =>
    if base = 10 ∧ maxDigits < digits.length then .error (.overlongInteger digits.length)
    else .ok (.int (signed negative (digits.foldl (fun n c => n * base + digitOf c) 0)))

def dateForm? : List Char → Option (Nat × Nat × Nat)
  | [y₁, y₂, y₃, y₄, '-', m₁, m₂, '-', d₁, d₂] =>
    if [y₁, y₂, y₃, y₄, m₁, m₂, d₁, d₂].all Char.isDigit then
      some (ofDigits [y₁, y₂, y₃, y₄], ofDigits [m₁, m₂], ofDigits [d₁, d₂])
    else none
  | _ => none

def isLeapYear (year : Nat) : Bool := year % 4 == 0 && (year % 100 != 0 || year % 400 == 0)

def daysIn (year month : Nat) : Nat :=
  if month == 2 then (if isLeapYear year then 29 else 28)
  else if month == 4 || month == 6 || month == 9 || month == 11 then 30
  else 31

def date (year month day : Nat) : Except ScalarFault Value :=
  if year == 0 then .error .yearOutOfRange
  else if month == 0 || 12 < month then .error .monthOutOfRange
  else if day == 0 || daysIn year month < day then .error .dayOutOfRange
  else .ok (.date ⟨year, month, day⟩)

def words : List (String × Value) :=
  [("", .null), ("~", .null), ("null", .null), ("Null", .null), ("NULL", .null),
    ("true", .bool true), ("True", .bool true), ("TRUE", .bool true),
    ("false", .bool false), ("False", .bool false), ("FALSE", .bool false),
    (".inf", .float (.infinite false)), (".Inf", .float (.infinite false)),
    (".INF", .float (.infinite false)), ("+.inf", .float (.infinite false)),
    ("+.Inf", .float (.infinite false)), ("+.INF", .float (.infinite false)),
    ("-.inf", .float (.infinite true)), ("-.Inf", .float (.infinite true)),
    ("-.INF", .float (.infinite true)),
    (".nan", .float .nan), (".NaN", .float .nan), (".NAN", .float .nan)]

def resolve (s : String) : Except ScalarFault Resolved :=
  let cs := s.toList
  match words.lookup s with
  | some v => .ok (.value v)
  | none =>
    if s == "<<" then .ok .merge
    else if s == "=" then .ok .default
    else if isFloat cs then (float cs).map .value
    else match integerForm? cs with
      | some (base, digits) => (integer (isNegative cs) base digits).map .value
      | none => match dateForm? cs with
        | some (year, month, day) => (date year month day).map .value
        | none => .ok (.value (.str s))

end MessageCatalog.Yaml.Schema
