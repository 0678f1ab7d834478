import MessageCatalog.PhraseFile.Basic
import MessageCatalog.Yaml.Document

/-!
# Reading phrase files

A phrase file is YAML text, and lines may end in any of the usual ways. Text without a document is
an empty dictionary. That a scalar in the form of a number or of a day stands for none is no fault
of the file as such and is reported as it is.
-/
namespace MessageCatalog

inductive PhraseFileError where
  | notFound
  | malformed
  | notDictionary
  | invalid (issues : List Issue)
  | scalar (fault : Yaml.ScalarFault)
deriving DecidableEq

namespace PhraseFileError

def message (file : String) : PhraseFileError → String
  | .notFound => "Phrase file not found: " ++ file
  | .malformed => "Failed to parse phrase file " ++ file
  | .notDictionary => "Phrase file must be a mapping: " ++ file
  | .invalid _ => "Invalid phrase file " ++ file ++ ":"
  | .scalar fault => fault.message

def report (file : String) (e : PhraseFileError) : String :=
  match e with
  | .invalid issues =>
    issues.foldl
      (fun s issue => s ++ "\n" ++ ".".intercalate issue.path ++ "\n  " ++ issue.kind.message)
      (e.message file)
  | e => e.message file

end PhraseFileError

namespace PhraseFile

def unifyLines : List Char → List Char
  | '\r' :: '\n' :: rest => '\n' :: unifyLines rest
  | '\r' :: rest => '\n' :: unifyLines rest
  | c :: rest => c :: unifyLines rest
  | [] => []

def ofValue : Value → Except PhraseFileError PhraseFile
  | .null => (ofEntries []).mapError .invalid
  | .dict entries => (ofEntries entries).mapError .invalid
  | _ => .error .notDictionary

/-- The phrase file of a text, none where there is no file, by a reader of YAML text. -/
def readWith (readYaml : String → Except Yaml.Fault Value) :
    Option String → Except PhraseFileError PhraseFile
  | none => .error .notFound
  | some s => match readYaml (String.ofList (unifyLines s.toList)) with
    | .error .malformed => .error .malformed
    | .error (.scalar fault) => .error (.scalar fault)
    | .ok v => ofValue v

def read : Option String → Except PhraseFileError PhraseFile := readWith Yaml.read

end PhraseFile

end MessageCatalog
