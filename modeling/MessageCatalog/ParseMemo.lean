import MessageCatalog.Phrase.Assembly
import MessageCatalog.Text.LetterCase

/-!
# Memory of parsed phrases

Keeps the phrase that a key's text was parsed to, together with that text, so that a phrase is not
parsed again while its text stays the same. Looking a key up and keeping what was parsed are two
steps, and other steps may come between them; if one of those has kept the same text for the key,
its phrase stays.
-/
namespace MessageCatalog

structure ParseMemo where
  enabled : Bool
  entries : List (String × String × Phrase)
  hits : Nat
  misses : Nat
  parses : Nat

/-- Whether the text of a setting means yes: all but a few words for no, and nothing, do. -/
def isYes (text : String) : Bool :=
  !(["0", "false", "no", "off", ""].contains (Text.lower (Text.trim text)))

namespace ParseMemo

/-- Whether a memo is enabled: the environment decides, else the flag, else it is. -/
def isEnabled (environment : Option String) (flag : Option Bool) : Bool :=
  match environment with
  | some text => isYes text
  | none => flag.getD true

def new (environment : Option String) (flag : Option Bool) : ParseMemo :=
  ⟨isEnabled environment flag, [], 0, 0, 0⟩

def current? (m : ParseMemo) (key text : String) : Option Phrase :=
  match m.entries.lookup key with
  | some (kept, phrase) => if kept = text then some phrase else none
  | none => none

def lookup (m : ParseMemo) (key text : String) : Option Phrase × ParseMemo :=
  if !m.enabled then (none, { m with parses := m.parses + 1 })
  else match m.current? key text with
    | some phrase => (some phrase, { m with hits := m.hits + 1 })
    | none => (none, { m with misses := m.misses + 1, parses := m.parses + 1 })

def keep (m : ParseMemo) (key text : String) (phrase : Phrase) : Phrase × ParseMemo :=
  if !m.enabled then (phrase, m)
  else match m.current? key text with
    | some kept => (kept, m)
    | none => (phrase, { m with entries := Entries.put key (text, phrase) m.entries })

def getOrParse (m : ParseMemo) (key text : String) : Except ParseError Phrase × ParseMemo :=
  match m.lookup key text with
  | (some phrase, m) => (.ok phrase, m)
  | (none, m) => match Phrase.parse text with
    | .error e => (.error e, m)
    | .ok phrase => let (kept, m) := m.keep key text phrase; (.ok kept, m)

def get? (m : ParseMemo) (key : String) : Option Phrase := (m.entries.lookup key).map (·.2)

def contains (m : ParseMemo) (key : String) : Bool := Entries.contains key m.entries

def evict (m : ParseMemo) (key : String) : ParseMemo :=
  { m with entries := Entries.remove key m.entries }

def evictMany (m : ParseMemo) : List String → Nat × ParseMemo
  | [] => (0, m)
  | key :: rest =>
    let (count, m') := (m.evict key).evictMany rest
    (count + (if m.contains key then 1 else 0), m')

def clear (m : ParseMemo) : ParseMemo := { m with entries := [], hits := 0, misses := 0 }

end ParseMemo

/-- A use of a memo. The steps of `during` run while the text is parsed, between looking the key up
and keeping the phrase. -/
inductive MemoStep where
  | getOrParse (key text : String) (during : List MemoStep)
  | get (key : String)
  | evict (key : String)
  | evictMany (keys : List String)
  | clear
  | contains (key : String)

inductive MemoAnswer where
  | phrase (result : Except ParseError Phrase) (during : List (MemoAnswer × ParseMemo))
  | found (phrase : Option Phrase)
  | flag (answer : Bool)
  | count (n : Nat)
  | done

namespace MemoStep

mutual

def apply (m : ParseMemo) : MemoStep → MemoAnswer × ParseMemo
  | .getOrParse key text during =>
    match m.lookup key text with
    | (some phrase, m) => (.phrase (.ok phrase) [], m)
    | (none, m) =>
      let (answers, m) := applyAll m during
      match Phrase.parse text with
      | .error e => (.phrase (.error e) answers, m)
      | .ok phrase =>
        let (kept, m) := m.keep key text phrase
        (.phrase (.ok kept) answers, m)
  | .get key => (.found (m.get? key), m)
  | .evict key => (.flag (m.contains key), m.evict key)
  | .evictMany keys => let (count, m) := m.evictMany keys; (.count count, m)
  | .clear => (.done, m.clear)
  | .contains key => (.flag (m.contains key), m)

def applyAll (m : ParseMemo) : List MemoStep → List (MemoAnswer × ParseMemo) × ParseMemo
  | [] => ([], m)
  | step :: rest =>
    let (answer, m) := apply m step
    let (answers, last) := applyAll m rest
    ((answer, m) :: answers, last)

end

end MemoStep

end MessageCatalog
