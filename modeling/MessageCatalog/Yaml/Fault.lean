import MessageCatalog.Number.DigitLimit

/-!
# Faults of YAML text

Text that is not YAML at all is told apart from a scalar that has the form of a number or of a day
but stands for none.
-/
namespace MessageCatalog.Yaml

inductive ScalarFault where
  | noDigits (base : Nat)
  | overlongInteger (digits : Nat)
  | noNumber (text : String)
  | yearOutOfRange
  | monthOutOfRange
  | dayOutOfRange
  | noCharacter
deriving DecidableEq

inductive Fault where
  | malformed
  | scalar (fault : ScalarFault)
deriving DecidableEq

namespace ScalarFault

def message : ScalarFault → String
  | .noDigits base => "invalid literal for int() with base " ++ toString base ++ ": ''"
  | .overlongInteger digits => Number.overlongTextMessage digits
  | .noNumber text => "could not convert string to float: '" ++ text ++ "'"
  | .yearOutOfRange => "year 0 is out of range"
  | .monthOutOfRange => "month must be in 1..12"
  | .dayOutOfRange => "day is out of range for month"
  | .noCharacter => "chr() arg not in range(0x110000)"

end ScalarFault

end MessageCatalog.Yaml
