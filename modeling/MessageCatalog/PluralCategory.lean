import MessageCatalog.Entries
import MessageCatalog.Rendering.Failure
import MessageCatalog.Text.LetterCase
import MessageCatalog.Value.Text

/-!
# Plural categories

The grammatical category that a number has in a language, as a count or as an ordinal. A rule works
on the text of the number, so it applies to any value, but it fails where there is no text. Rules
are registered for language tags; the rule of a locale is the one registered for its whole tag, or
else for its language. Tags are in lower case with hyphens between their parts.
-/
namespace MessageCatalog

inductive PluralCategory where
  | zero | one | two | few | many | other
deriving DecidableEq

namespace PluralCategory

def all : List PluralCategory := [.zero, .one, .two, .few, .many, .other]

def name : PluralCategory → String
  | .zero => "zero"
  | .one => "one"
  | .two => "two"
  | .few => "few"
  | .many => "many"
  | .other => "other"

def ofName? (s : String) : Option PluralCategory := all.find? (·.name == s)

end PluralCategory

abbrev PluralRule := Value → Bool → Except RenderError PluralCategory

namespace PluralRule

/-- The characters before and after the first point, without minus signs in front. A float without
a fraction has no characters after the point. -/
def splitNumber (v : Value) : List Char × List Char :=
  let text := v.display.toList.dropWhile (· == '-')
  let whole := text.takeWhile (· != '.')
  match text.dropWhile (· != '.') with
  | [] => (whole, [])
  | _ :: fraction => match v with
    | .float x => if fraction = ['0'] && x.isIntegral then (whole, []) else (whole, fraction)
    | _ => (whole, fraction)

def lastChars (count : Nat) (cs : List Char) : List Char := cs.drop (cs.length - count)

def englishOrdinal (digits : List Char) : PluralCategory :=
  let last := lastChars 1 digits
  let lastTwo := lastChars 2 digits
  if last = ['1'] ∧ lastTwo ≠ ['1', '1'] then .one
  else if last = ['2'] ∧ lastTwo ≠ ['1', '2'] then .two
  else if last = ['3'] ∧ lastTwo ≠ ['1', '3'] then .few
  else .other

def englishCategory (v : Value) (ordinal : Bool) : PluralCategory :=
  let (whole, fraction) := splitNumber v
  if ordinal then (if fraction.isEmpty then englishOrdinal whole else .other)
  else if whole = ['1'] ∧ fraction.isEmpty then .one else .other

def english : PluralRule := fun v ordinal =>
  if v.hasText then .ok (englishCategory v ordinal) else .error .overlongInteger

def invariant : PluralRule := fun _ _ => .ok .other

end PluralRule

abbrev PluralRules := List (String × PluralRule)

namespace PluralRules

def builtIn : PluralRules :=
  [("en", .english), ("ja", .invariant), ("ko", .invariant), ("zh", .invariant)]

def register (rules : PluralRules) (tag : String) (rule : PluralRule) : PluralRules :=
  Entries.put (Text.lower tag) rule rules

def tagOf (locale : String) : String :=
  Text.lower (String.ofList (locale.toList.map fun c => if c = '_' then '-' else c))

def languageOf (tag : String) : String := String.ofList (tag.toList.takeWhile (· != '-'))

/-- The rule of a locale: that of its tag, or else of its language. -/
def find? (rules : PluralRules) (locale : String) : Option PluralRule :=
  let tag := tagOf locale
  (rules.lookup tag).or (rules.lookup (languageOf tag))

def category? (rules : PluralRules) (locale : String) (v : Value) (ordinal : Bool) :
    Option (Except RenderError PluralCategory) :=
  (rules.find? locale).map fun rule => rule v ordinal

end PluralRules

end MessageCatalog
