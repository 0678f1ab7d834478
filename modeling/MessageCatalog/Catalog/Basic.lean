import MessageCatalog.Catalog.MessageTree
import MessageCatalog.ParseMemo
import MessageCatalog.PluralCategory
import MessageCatalog.Rendering.Evaluation

/-!
# Catalogs

A catalog holds the texts of one locale by their keys, and the values that its phrases are rendered
with by default. Among these are helpers, by which phrases render other phrases of the catalog and
choose between phrases by the category of a number.
-/
namespace MessageCatalog

structure Catalog where
  locale : String
  texts : List (String × String)
  context : Locals

namespace Catalog

def helpers : Locals :=
  [("t", .function (.helper .render)),
    ("tToParts", .function (.helper .renderParts)),
    ("selectPhrase", .function (.helper .selectPhrase)),
    ("getPluralRule", .function (.helper .pluralRule)),
    ("getOrdinalRule", .function (.helper .ordinalRule))]

def new (locale : String) (context : List (Value × Value)) : Catalog :=
  ⟨locale, [], Entries.overlay helpers (Locals.ofEntries context)⟩

def extendContext (c : Catalog) (context : List (Value × Value)) : Catalog :=
  { c with context := Entries.overlay c.context (Locals.ofEntries context) }

/-- Adds or replaces texts. What the memo keeps for their keys is evicted. Nothing changes if the
messages are malformed. -/
def extendMessages (c : Catalog) (memo : ParseMemo) (messages : List (Value × Value)) :
    Except BadEntry (Catalog × ParseMemo) :=
  match MessageTree.flatten "" messages with
  | .error e => .error e
  | .ok flat =>
    .ok ({ c with texts := Entries.overlay c.texts flat }, (memo.evictMany (flat.map (·.1))).2)

def hasText (c : Catalog) (key : String) : Bool := Entries.contains key c.texts

def keys (c : Catalog) : List String := (c.texts.map (·.1)).mergeSort fun a b => a ≤ b

def pluralCategory (c : Catalog) (v : Value) (ordinal : Bool) :
    Except RenderError PluralCategory :=
  match PluralRules.builtIn.category? c.locale v ordinal with
  | some category => category
  | none => .error (.unsupportedLocale c.locale)

def selector (c : Catalog) (v type : Value) : Except RenderError String :=
  match type with
  | .str "plural" => (c.pluralCategory v false).map (·.name)
  | .str "ordinal" => (c.pluralCategory v true).map (·.name)
  | _ => written v.text?

def phraseNamed? (name : String) (phrases : List (Value × Value)) : Option String :=
  match Value.find? name phrases with
  | some (.str s) => some s
  | _ => none

def selectPhrase (c : Catalog) (v type phrases : Value) : Except RenderError String :=
  match c.selector v type with
  | .error e => .error e
  | .ok name => match phrases with
    | .dict entries =>
      match (phraseNamed? name entries).or (phraseNamed? "default" entries) with
      | some s => .ok s
      | none => .error (.missingPhrase name)
    | _ => .error .badPhrases

def textOf (c : Catalog) (key : Value) : Except RenderError (String × String) :=
  if !key.isKey then .error .badKey
  else match key with
    | .str name => match c.texts.lookup name with
      | some text => .ok (name, text)
      | none => .error (.missingText c.locale name)
    | v => (written v.display?).bind fun name => .error (.missingText c.locale name)

/-- The default context with that of one rendering on top. Everything that counts as false is an
empty context. -/
def localsWith (c : Catalog) (context : Value) : Except RenderError Locals :=
  if !context.isTruthy then .ok c.context
  else match context with
    | .dict entries => .ok (Entries.overlay c.context (Locals.ofEntries entries))
    | _ => .error .badContext

end Catalog

end MessageCatalog
