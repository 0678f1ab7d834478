import MessageCatalog.Catalog.Basic

/-!
# Phrase files

A phrase file gives the locale of a catalog, its default context and its messages. A dictionary
is a phrase file if the locale is a string that is not blank, if the context and the messages
are dictionaries with strings as keys where they are given at all, if all messages are texts or
groups, and if there is nothing else. Otherwise it has issues, which are listed in this order.
-/
namespace MessageCatalog

structure PhraseFile where
  locale : String
  context : List (Value × Value)
  messages : List (Value × Value)

inductive IssueKind where
  | missing
  | notString
  | notDictionary
  | blankLocale
  | badEntry (error : BadEntry)
  | keyNotString
  | unknownKey
deriving DecidableEq

structure Issue where
  path : List String
  kind : IssueKind
deriving DecidableEq

namespace IssueKind

def name : IssueKind → String
  | .missing => "missing"
  | .notString => "string_type"
  | .notDictionary => "dict_type"
  | .blankLocale | .badEntry _ => "value_error"
  | .keyNotString => "invalid_key"
  | .unknownKey => "extra_forbidden"

def message : IssueKind → String
  | .missing => "Field required"
  | .notString => "Input should be a valid string"
  | .notDictionary => "Input should be a valid dictionary"
  | .blankLocale => "Value error, locale must not be empty"
  | .badEntry e => "Value error, " ++ e.message
  | .keyNotString => "Keys should be strings"
  | .unknownKey => "Extra inputs are not permitted"

end IssueKind

namespace PhraseFile

def fields : List String := ["locale", "context", "translations"]

def isString : Value → Bool
  | .str _ => true
  | _ => false

def pathName : Value → String
  | .str s => s
  | .bool b => if b then "1" else "0"
  | v => if v.hasText then v.inspect else "<unprintable " ++ v.typeName ++ " object>"

def locale? : Option Value → Except (List Issue) String
  | none => .error [⟨["locale"], .missing⟩]
  | some (.str s) =>
    let trimmed := Text.trim s
    if trimmed.isEmpty then .error [⟨["locale"], .blankLocale⟩] else .ok trimmed
  | some _ => .error [⟨["locale"], .notString⟩]

def dictionary? (field : String) : Option Value → Except (List Issue) (List (Value × Value))
  | none => .ok []
  | some (.dict entries) =>
    match entries.filter (!isString ·.1) with
    | [] => .ok entries
    | bad => .error (bad.map fun e => ⟨[field, pathName e.1, "[key]"], .notString⟩)
  | some _ => .error [⟨[field], .notDictionary⟩]

def messages? (v : Option Value) : Except (List Issue) (List (Value × Value)) :=
  match dictionary? "translations" v with
  | .error issues => .error issues
  | .ok entries => match MessageTree.flatten "" entries with
    | .ok _ => .ok entries
    | .error e => .error [⟨["translations"], .badEntry e⟩]

def strayIssue? : Value → Option Issue
  | .str s => if fields.contains s then none else some ⟨[s], .unknownKey⟩
  | key => some ⟨[pathName key], .keyNotString⟩

def strayIssues (entries : List (Value × Value)) : List Issue :=
  entries.filterMap fun e => strayIssue? e.1

def issuesOf {α : Type} : Except (List Issue) α → List Issue
  | .error issues => issues
  | .ok _ => []

def ofEntries (entries : List (Value × Value)) : Except (List Issue) PhraseFile :=
  let locale := locale? (Value.find? "locale" entries)
  let context := dictionary? "context" (Value.find? "context" entries)
  let messages := messages? (Value.find? "translations" entries)
  match locale, context, messages, strayIssues entries with
  | .ok l, .ok c, .ok t, [] => .ok ⟨l, c, t⟩
  | _, _, _, stray => .error (issuesOf locale ++ issuesOf context ++ issuesOf messages ++ stray)

def catalog (f : PhraseFile) : Except BadEntry Catalog :=
  ((Catalog.new f.locale f.context).extendMessages (.new none none) f.messages).map (·.1)

end PhraseFile

end MessageCatalog
