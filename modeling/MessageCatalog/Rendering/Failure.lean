import MessageCatalog.Token.SyntaxError

/-!
# Failures of rendering

Why a phrase could not be rendered: it is missing or malformed, it calls what is no function, a
function failed, a value has no text, or a helper was called in a way it does not understand. The
failures that authors of phrases and callers can mend have a message.
-/
namespace MessageCatalog

structure HostError where
  kind : String
  message : String
deriving DecidableEq

inductive RenderError where
  | phrase (error : ParseError)
  | notDefined (name : String)
  | notAFunction (name : String)
  | unknownNode (kind : String)
  | host (error : HostError)
  | overlongInteger
  | missingText (locale key : String)
  | missingPhrase (key : String)
  | unsupportedLocale (locale : String)
  | argumentCount (given : Nat)
  | badKey
  | badContext
  | badPhrases
  | tooDeep
deriving DecidableEq

namespace RenderError

def missingTextMessage (locale key : String) : String :=
  "The locale '" ++ locale ++ "' is missing the translation with the key '" ++ key ++ "'"

def missingPhraseMessage (key : String) : String := "Missing selectable phrase key: " ++ key

def unsupportedLocaleMessage (locale : String) : String := "Unsupported locale: " ++ locale

def message? : RenderError → Option String
  | .phrase e => some e.message
  | .notDefined name => some ("'" ++ name ++ "' is not defined")
  | .notAFunction name => some ("'" ++ name ++ "' is not a function")
  | .unknownNode kind => some ("Unknown AST type: " ++ kind)
  | .host e => some e.message
  | .overlongInteger => some Number.overlongIntegerMessage
  | .missingText locale key => some (missingTextMessage locale key)
  | .missingPhrase key => some (missingPhraseMessage key)
  | .unsupportedLocale locale => some (unsupportedLocaleMessage locale)
  | _ => none

end RenderError

def written : Option String → Except RenderError String
  | some s => .ok s
  | none => .error .overlongInteger

end MessageCatalog
