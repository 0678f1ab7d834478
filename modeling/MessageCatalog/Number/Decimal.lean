import MessageCatalog.Number.Binary64

/-!
# Decimals

A decimal is a number of the form `± digits * 10 ^ exponent`. It is the meaning of a numeral, and
the binary number it stands for is the nearest one.
-/
namespace MessageCatalog.Number

structure Decimal where
  negative : Bool
  digits : Nat
  exponent : Int
deriving DecidableEq

namespace Decimal

def numerator (d : Decimal) : Nat := d.digits * Nat.pow 10 d.exponent.toNat * unitsPerOne

def denominator (d : Decimal) : Nat := Nat.pow 10 (-d.exponent).toNat

def leading (d : Decimal) : Int := (Nat.toDigits 10 d.digits).length + d.exponent

/-- The nearest binary number. Numerals far beyond the largest and far below the smallest number
are settled by their leading digit alone. -/
def toBinary64 (d : Decimal) : Binary64 :=
  if d.digits = 0 ∨ d.leading < -400 then .finite d.negative .empty
  else if 400 < d.leading then .infinite d.negative
  else .ofRatio d.negative d.numerator d.denominator

end Decimal

end MessageCatalog.Number
