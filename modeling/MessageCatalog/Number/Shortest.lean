import MessageCatalog.Number.Decimal

/-!
# Shortest decimals

The decimal that a float is shown by: the one with the fewest digits that reads back as the same
number, and of several the nearest to it, a tie going to the even last digit. Seventeen digits
always read back.
-/
namespace MessageCatalog.Number

/-- The exponent of the leading decimal digit of a positive magnitude. Scaled by `10 ^ 324` every
positive magnitude has a digit before the point. -/
def leadingExponent (m : Magnitude) : Int :=
  (Nat.toDigits 10 (m.units * Nat.pow 10 324 / unitsPerOne)).length - 325

def readsBack (m : Magnitude) (digits : Nat) (exponent : Int) : Bool :=
  (⟨false, digits, exponent⟩ : Decimal).toBinary64 == .finite false m

def scaled (m : Magnitude) (exponent : Int) : Nat × Nat :=
  (m.units * Nat.pow 10 (-exponent).toNat, unitsPerOne * Nat.pow 10 exponent.toNat)

/-- The multiple of `10 ^ exponent` beside `m` that reads back as `m`, the nearer of two. -/
def onGrid? (m : Magnitude) (exponent : Int) : Option Nat :=
  let (n, d) := scaled m exponent
  let low := n / d
  let nearest := divRoundEven n d
  let other := if nearest = low then low + 1 else low
  if readsBack m nearest exponent then some nearest
  else if readsBack m other exponent then some other
  else none

def dropZeros : Nat → Nat → Int → Nat × Int
  | 0, digits, exponent => (digits, exponent)
  | fuel + 1, digits, exponent =>
    if digits % 10 = 0 ∧ digits ≠ 0 then dropZeros fuel (digits / 10) (exponent + 1)
    else (digits, exponent)

def shortestFrom (m : Magnitude) (lead : Int) : Nat → Nat → Nat × Int
  | 0, count =>
    let exponent := lead - count + 1
    let (n, d) := scaled m exponent
    (divRoundEven n d, exponent)
  | rounds + 1, count =>
    let exponent := lead - count + 1
    match onGrid? m exponent with
    | some digits => (digits, exponent)
    | none => shortestFrom m lead rounds (count + 1)

def shortest (m : Magnitude) : Nat × Int :=
  if m.units = 0 then (0, 0)
  else
    let (digits, exponent) := shortestFrom m (leadingExponent m) 16 1
    dropZeros 20 digits exponent

end MessageCatalog.Number
