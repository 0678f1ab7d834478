import MessageCatalog.Number.DigitLimit
import MessageCatalog.Number.Shortest

/-!
# Numbers as text

Integers are written by their digits, and those with more digits than the limit are not written at
all. A float is written by its shortest decimal, with a point and at least one digit after it, from
`0.0001` up to below `10 ^ 16`; smaller and larger ones have an exponent with its sign and at least
two digits.
-/
namespace MessageCatalog.Number

def natChars (n : Nat) : List Char := Nat.toDigits 10 n

def intChars (n : Int) : List Char :=
  if n < 0 then '-' :: natChars n.natAbs else natChars n.natAbs

def intText (n : Int) : String := String.ofList (intChars n)

def hasText (n : Int) : Bool := (natChars n.natAbs).length ≤ maxDigits

def exponentChars (e : Int) : List Char :=
  let digits := natChars e.natAbs
  (if e < 0 then '-' else '+') :: (if digits.length < 2 then '0' :: digits else digits)

/-- `0.digits * 10 ^ point` with a point and no exponent. -/
def positional (digits : List Char) (point : Int) : List Char :=
  if point ≤ 0 then '0' :: '.' :: List.replicate (-point).toNat '0' ++ digits
  else
    let whole := point.toNat
    if digits.length ≤ whole then
      digits ++ List.replicate (whole - digits.length) '0' ++ ['.', '0']
    else digits.take whole ++ '.' :: digits.drop whole

/-- `0.digits * 10 ^ point` with one digit before the point and an exponent. -/
def scientific (digits : List Char) (point : Int) : List Char :=
  let fraction := match digits.drop 1 with
    | [] => []
    | rest => '.' :: rest
  digits.take 1 ++ fraction ++ 'e' :: exponentChars (point - 1)

def magnitudeChars (m : Magnitude) : List Char :=
  let (n, exponent) := shortest m
  let digits := natChars n
  let point := (digits.length : Int) + exponent
  if -4 < point ∧ point ≤ 16 then positional digits point else scientific digits point

def floatChars : Binary64 → List Char
  | .nan => ['n', 'a', 'n']
  | .infinite negative => (if negative then ['-'] else []) ++ ['i', 'n', 'f']
  | .finite negative m => (if negative then ['-'] else []) ++ magnitudeChars m

def floatText (x : Binary64) : String := String.ofList (floatChars x)

end MessageCatalog.Number
