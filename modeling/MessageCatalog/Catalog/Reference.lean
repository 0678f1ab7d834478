import MessageCatalog.Catalog.Session

/-!
# Catalogs without memos

What a catalog is to those who use it: a map from keys to texts and a map from names to values, each
a list with the newest entry first, of which the newest entry of a key counts. A phrase is rendered
by parsing its text and evaluating it, where what is bound for this rendering comes before what is
bound by default. Sessions of such catalogs answer the same steps as those with memos, but for the
questions about memos.
-/
namespace MessageCatalog

structure PlainCatalog where
  locale : String
  texts : List (String × String)
  context : List (String × Value)

namespace PlainCatalog

def bind (context : List (String × Value)) : List (Value × Value) → List (String × Value)
  | [] => context
  | (.str name, v) :: rest => bind ((name, v) :: context) rest
  | _ :: rest => bind context rest

def helpers : List (Value × Value) :=
  [(.str "t", .function (.helper .render)),
    (.str "tToParts", .function (.helper .renderParts)),
    (.str "selectPhrase", .function (.helper .selectPhrase)),
    (.str "getPluralRule", .function (.helper .pluralRule)),
    (.str "getOrdinalRule", .function (.helper .ordinalRule))]

def new (locale : String) (context : List (Value × Value)) : PlainCatalog :=
  ⟨locale, [], bind (bind [] helpers) context⟩

def extendContext (c : PlainCatalog) (context : List (Value × Value)) : PlainCatalog :=
  { c with context := bind c.context context }

def extendMessages (c : PlainCatalog) (messages : List (Value × Value)) :
    Except BadEntry PlainCatalog :=
  (MessageTree.flatten "" messages).map fun flat => { c with texts := flat.reverse ++ c.texts }

def keysOf {α : Type} (entries : List (String × α)) : List String :=
  (entries.map Prod.fst).eraseDups.mergeSort fun a b => a ≤ b

def listing {α : Type} (entries : List (String × α)) : List (String × α) :=
  (keysOf entries).filterMap fun key => (entries.lookup key).map (key, ·)

/-- The names of one rendering before the default ones. What counts as false binds no names. -/
def scope (c : PlainCatalog) : Value → Except RenderError (List (String × Value))
  | .dict entries => .ok (bind c.context entries)
  | v => if v.isTruthy then .error .badContext else .ok c.context

def textUnder (c : PlainCatalog) : Value → Except RenderError String
  | .str key => match c.texts.lookup key with
    | some text => .ok text
    | none => .error (.missingText c.locale key)
  | v => if v.isKey then
      match v.display? with
      | some shown => .error (.missingText c.locale shown)
      | none => .error .overlongInteger
    else .error .badKey

def category (c : PlainCatalog) (v : Value) (ordinal : Bool) : Except RenderError String :=
  match PluralRules.builtIn.category? c.locale v ordinal with
  | some category => category.map (·.name)
  | none => .error (.unsupportedLocale c.locale)

def choice (c : PlainCatalog) (v : Value) : Value → Except RenderError String
  | .str "plural" => c.category v false
  | .str "ordinal" => c.category v true
  | _ => match v.text? with
    | some name => .ok name
    | none => .error .overlongInteger

def pick (name : String) (phrases : List (Value × Value)) : Except RenderError String :=
  match Value.find? name phrases, Value.find? "default" phrases with
  | some (.str s), _ => .ok s
  | _, some (.str s) => .ok s
  | _, _ => .error (.missingPhrase name)

def select (c : PlainCatalog) (v type phrases : Value) : Except RenderError String := do
  let name ← c.choice v type
  match phrases with
  | .dict entries => pick name entries
  | _ => throw .badPhrases

def joined (values : List Value) : Except RenderError String :=
  match Value.joinText? values with
  | some s => .ok s
  | none => .error .overlongInteger

def target : List Value → Except RenderError (Value × Value)
  | [key] => .ok (key, .null)
  | [key, context] => .ok (key, context)
  | arguments => .error (.argumentCount arguments.length)

def help (c : PlainCatalog) (parts : Value → Value → Eval (List HostCall) (List Value))
    (helper : Helper) (arguments : List Value) : Eval (List HostCall) Value :=
  match helper with
  | .render => do
    let (key, context) ← .lift (target arguments)
    return .str (← .lift (joined (← parts key context)))
  | .renderParts => do
    let (key, context) ← .lift (target arguments)
    return .list (← parts key context)
  | .selectPhrase => match arguments with
    | [v, type, phrases] => do return .str (← .lift (c.select v type phrases))
    | _ => throw (.argumentCount arguments.length)
  | .pluralRule => match arguments with
    | [v] => do return .str (← .lift (c.category v false))
    | _ => throw (.argumentCount arguments.length)
  | .ordinalRule => match arguments with
    | [v] => do return .str (← .lift (c.category v true))
    | _ => throw (.argumentCount arguments.length)

def call (c : PlainCatalog) (host : Host)
    (parts : Value → Value → Eval (List HostCall) (List Value)) (f : Callable)
    (arguments : List Value) : Eval (List HostCall) Value := fun calls =>
  match f with
  | .helper helper => c.help parts helper arguments calls
  | .host f => match host.run f arguments with
    | .ok v => .ok v (calls ++ [⟨f, arguments⟩])
    | .error e => .error (.host e) (calls ++ [⟨f, arguments⟩])

def parts (c : PlainCatalog) (host : Host) :
    Nat → Value → Value → Eval (List HostCall) (List Value)
  | 0, _, _ => throw .tooDeep
  | depth + 1, key, context => do
    let text ← .lift (c.textUnder key)
    let phrase ← .lift ((Phrase.parse text).mapError .phrase)
    let locals ← .lift (c.scope context)
    phrase.evaluate (c.call host (c.parts host depth)) locals

def text (c : PlainCatalog) (host : Host) (depth : Nat) (key context : Value) :
    Eval (List HostCall) String := do
  .lift (joined (← c.parts host depth key context))

end PlainCatalog

structure PlainSession where
  catalogs : String → Option PlainCatalog
  calls : List HostCall

/-- Whether a step only asks or changes a memo. -/
def SessionStep.isAboutMemo : SessionStep → Bool
  | .memo .. | .act _ (.isMemoized _) => true
  | _ => false

namespace PlainSession

def empty : PlainSession := ⟨fun _ => none, []⟩

def put (p : PlainSession) (id : String) (c : Option PlainCatalog) : PlainSession :=
  { p with catalogs := fun other => if other = id then c else p.catalogs other }

def finish {α : Type} (p : PlainSession) (answer : α → SessionAnswer) :
    EStateM.Result RenderError (List HostCall) α →
      Option (Except SessionError SessionAnswer) × PlainSession
  | .ok a calls => (some (.ok (answer a)), { p with calls := calls })
  | .error e calls => (some (.error (.rendering e)), { p with calls := calls })

def ofText : Except RenderError String → Option (Except SessionError SessionAnswer)
  | .ok s => some (.ok (.text s))
  | .error e => some (.error (.rendering e))

def act (host : Host) (depth : Nat) (p : PlainSession) (id : String) (c : PlainCatalog) :
    CatalogAction → Option (Except SessionError SessionAnswer) × PlainSession
  | .extendMessages messages => match c.extendMessages messages with
    | .error e => (some (.error (.badEntry e)), p)
    | .ok c => (some (.ok .extended), p.put id (some c))
  | .extendContext context => (some (.ok .extended), p.put id (some (c.extendContext context)))
  | .has key => (some (.ok (.flag (c.texts.lookup key).isSome)), p)
  | .isMemoized _ => (none, p)
  | .keys => (some (.ok (.names (PlainCatalog.keysOf c.texts))), p)
  | .texts => (some (.ok (.texts (PlainCatalog.listing c.texts))), p)
  | .context => (some (.ok (.values (PlainCatalog.listing c.context))), p)
  | .render key context => p.finish .text (c.text host depth key context p.calls)
  | .renderParts key context => p.finish .parts (c.parts host depth key context p.calls)
  | .category v ordinal => (ofText (c.category v ordinal), p)
  | .select v type phrases => (ofText (c.select v type phrases), p)

def apply (host : Host) (depth : Nat) (p : PlainSession) :
    SessionStep → Option (Except SessionError SessionAnswer) × PlainSession
  | .new id locale messages context _ _ _ =>
    match (PlainCatalog.new locale context).extendMessages messages with
    | .error e => (some (.error (.badEntry e)), p.put id none)
    | .ok c => (some (.ok .done), p.put id (some c))
  | .act id action => match p.catalogs id with
    | none => (if (SessionStep.act id action).isAboutMemo then none
        else some (.error (.unknownCatalog id)), p)
    | some c => p.act host depth id c action
  | .memo _ _ => (none, p)

def run (host : Host) (depth : Nat) (p : PlainSession) :
    List SessionStep → List (Option (Except SessionError SessionAnswer) × List HostCall)
  | [] => []
  | step :: rest =>
    let (answer, p) := p.apply host depth step
    (answer, p.calls) :: p.run host depth rest

end PlainSession

end MessageCatalog
