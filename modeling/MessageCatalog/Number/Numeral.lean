import MessageCatalog.Number.Decimal
import MessageCatalog.Number.DigitLimit
import MessageCatalog.Text.Blank
import MessageCatalog.Text.DecimalDigit
import MessageCatalog.Text.Quoted

/-!
# Numerals

Reading numbers from text. Blanks around a numeral are ignored, digits of every script count by
their value, and an underscore may stand between two digits. An integer is a sign and digits, no
more of them than the limit; a float has a point, an exponent or both, or is one of the words for
infinity and for no number.
-/
namespace MessageCatalog.Number
open MessageCatalog.Text

/-- The character a numeral is read by: digits of other scripts become ASCII digits and blanks of
other scripts spaces. -/
def plainChar (c : Char) : Char :=
  if c.toNat < 127 then c
  else if isBlank c then ' '
  else match digitValue? c with
    | some n => Nat.digitChar n
    | none => '?'

def isPadding (c : Char) : Bool := c == ' ' || (9 ≤ c.toNat && c.toNat ≤ 13)

def stripPadding (cs : List Char) : List Char :=
  ((cs.dropWhile isPadding).reverse.dropWhile isPadding).reverse

/-- Text without its underscores, if each of them stands between two digits. -/
def joinDigits? (afterDigit : Bool) : List Char → Option (List Char)
  | [] => some []
  | '_' :: c :: rest =>
    if afterDigit && c.isDigit then (joinDigits? true rest).map (c :: ·) else none
  | c :: rest => if c = '_' then none else (joinDigits? c.isDigit rest).map (c :: ·)

def numeralChars? (s : String) : Option (List Char) :=
  joinDigits? false (stripPadding (s.toList.map plainChar))

def ofDigits (cs : List Char) : Nat := cs.foldl (fun n c => n * 10 + (c.toNat - 48)) 0

def splitSign : List Char → Bool × List Char
  | '-' :: rest => (true, rest)
  | '+' :: rest => (false, rest)
  | rest => (false, rest)

def signed (negative : Bool) (n : Nat) : Int := if negative then -(n : Int) else n

def integerOfChars? (cs : List Char) : Option Int :=
  let (negative, digits) := splitSign cs
  if digits.isEmpty || !digits.all Char.isDigit then none else some (signed negative (ofDigits digits))

def exponentOfChars? : List Char → Option Int
  | [] => some 0
  | c :: rest => if c = 'e' ∨ c = 'E' then integerOfChars? rest else none

def decimalOfChars? (negative : Bool) (cs : List Char) : Option Decimal :=
  let whole := cs.takeWhile Char.isDigit
  let afterWhole := cs.dropWhile Char.isDigit
  let (fraction, rest) := match afterWhole with
    | '.' :: r => (r.takeWhile Char.isDigit, r.dropWhile Char.isDigit)
    | r => ([], r)
  if whole.isEmpty && fraction.isEmpty then none
  else (exponentOfChars? rest).map fun e =>
    ⟨negative, ofDigits (whole ++ fraction), e - fraction.length⟩

def floatOfChars? (cs : List Char) : Option Binary64 :=
  let (negative, rest) := splitSign cs
  let word := rest.map Char.toLower
  if word = "nan".toList then some .nan
  else if word = "inf".toList ∨ word = "infinity".toList then some (.infinite negative)
  else (decimalOfChars? negative rest).map Decimal.toBinary64

def limitedInteger? (cs : List Char) : Option Int :=
  if maxDigits < (splitSign cs).2.length then none else integerOfChars? cs

def readInteger? (s : String) : Option Int := (numeralChars? s).bind limitedInteger?

def readFloat? (s : String) : Option Binary64 := (numeralChars? s).bind floatOfChars?

def integerFaultMessage (s : String) : String :=
  let digits := ((numeralChars? s).getD []).filter Char.isDigit
  if maxDigits < digits.length then overlongTextMessage digits.length
  else "invalid literal for int() with base 10: " ++ quoted s

def floatFaultMessage (s : String) : String := "could not convert string to float: " ++ quoted s

end MessageCatalog.Number
