import MessageCatalog.Entries
import MessageCatalog.Value.Text

/-!
# Nested messages

Messages may be grouped in nested dictionaries. The key of a text is the path to it, with
points between the names; a name that is no string stands by its text, and has to have one. Only
texts and groups may occur.
-/
namespace MessageCatalog

inductive BadEntry where
  | notMessage (key typeName : String)
  | overlongName
deriving DecidableEq

def BadEntry.message : BadEntry → String
  | .notMessage key typeName =>
    "Translation '" ++ key ++ "' must be a string or a mapping, got " ++ typeName
  | .overlongName => Number.overlongIntegerMessage

namespace MessageTree

/-- The path to a name within a group. At the top there is no path yet. -/
def join (group : String) (name : String) : String :=
  if group.isEmpty then name else group ++ "." ++ name

mutual

def flattenValue (path : String) : Value → Except BadEntry (List (String × String))
  | .str s => .ok [(path, s)]
  | .dict entries => flattenEntries path [] entries
  | v => .error (.notMessage path v.typeName)

def flattenEntries (group : String) (flat : List (String × String)) :
    List (Value × Value) → Except BadEntry (List (String × String))
  | [] => .ok flat
  | (name, v) :: rest =>
    match name.display? with
    | none => .error .overlongName
    | some shown => match flattenValue (join group shown) v with
      | .error e => .error e
      | .ok texts => flattenEntries group (Entries.overlay flat texts) rest

end

def flatten (group : String) (entries : List (Value × Value)) :
    Except BadEntry (List (String × String)) :=
  flattenEntries group [] entries

end MessageTree

end MessageCatalog
