/-!
# The digit limit

Between an integer and its decimal text there is a conversion only up to a number of digits. Signs
and underscores are no digits, but zeros in front are. A conversion beyond the limit fails, with a
message that tells how many digits a text has.
-/
namespace MessageCatalog.Number

def maxDigits : Nat := 4300

def limitMessage (found : String) : String :=
  "Exceeds the limit (" ++ toString maxDigits ++ " digits) for integer string conversion" ++ found ++
    "; use sys.set_int_max_str_digits() to increase the limit"

def overlongTextMessage (digits : Nat) : String :=
  limitMessage (": value has " ++ toString digits ++ " digits")

def overlongIntegerMessage : String := limitMessage ""

end MessageCatalog.Number
