import MessageCatalog.Number.Numeral
import MessageCatalog.Token.Basic

/-!
# Syntax errors

What can be wrong with the text of a phrase, and where. Each fault has one wording, and the whole
message ends with the position. A number that cannot be converted is no fault of the syntax, and
what is said of it has no position.
-/
namespace MessageCatalog

inductive SyntaxFault where
  | unexpectedCharacter (c : Char) (mode : Mode)
  | unexpectedToken (kind : TokenKind) (value : String)
  | unexpectedEnd
  | unterminatedInterpolation
  | unterminatedInTemplate
  | unclosedCall
  | unclosedArray
  | unclosedObject
  | unclosedTemplate
  | templateClosedInExpression
  | shorthandProperty (name : String)
deriving DecidableEq

structure SyntaxError where
  fault : SyntaxFault
  position : Nat
deriving DecidableEq

inductive ParseError where
  | syntaxError (error : SyntaxError)
  | malformedNumber (text : String)
deriving DecidableEq

namespace SyntaxFault

def detail : SyntaxFault → String
  | .unexpectedCharacter c mode =>
    "unexpected character " ++ Text.quoted (String.singleton c) ++ " in " ++ mode.name ++ " mode"
  | .unexpectedToken kind value => "unexpected " ++ kind.name ++ " " ++ Text.quoted value
  | .unexpectedEnd => "unexpected end of phrase"
  | .unterminatedInterpolation => "unterminated interpolation"
  | .unterminatedInTemplate => "unterminated interpolation in template literal"
  | .unclosedCall => "unclosed function_call"
  | .unclosedArray => "unclosed bracket_start"
  | .unclosedObject => "unclosed object"
  | .unclosedTemplate => "unclosed template literal"
  | .templateClosedInExpression => "template literal closed while an expression is still open"
  | .shorthandProperty name => "shorthand property '" ++ name ++ "' is not supported"

end SyntaxFault

namespace SyntaxError

/-- The message for a detail, which may be empty, at a position, which may be unknown. -/
def messageFor (detail : String) (position : Option Int) : String :=
  "Invalid translation syntax"
    ++ (if detail.isEmpty then "" else ": " ++ detail)
    ++ (match position with
      | some p => " at position " ++ Number.intText p
      | none => "")

def message (e : SyntaxError) : String := messageFor e.fault.detail (some e.position)

end SyntaxError

def ParseError.message : ParseError → String
  | .syntaxError e => e.message
  | .malformedNumber text =>
    if text.toList.contains '.' then Number.floatFaultMessage text
    else Number.integerFaultMessage text

end MessageCatalog
