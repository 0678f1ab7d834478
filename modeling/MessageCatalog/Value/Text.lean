import MessageCatalog.Number.Text
import MessageCatalog.Text.Quoted
import MessageCatalog.Value.Basic

/-!
# Values as text

A value has three texts. `inspect` spells out every part, with strings in quotes. `display` is the
text of a value on its own: a string is itself and a date is in its calendar form. `text` is what a
value leaves in a rendered phrase: nothing for an absent value, `true` and `false`, the integer for
a float without a fraction, and the texts of the items for a list or a tuple. Each of them shows the
integers in a value, at whatever depth, so a value with an integer beyond the digit limit has none.
-/
namespace MessageCatalog
open Number Text

def padded (width n : Nat) : String :=
  let digits := natChars n
  String.ofList (List.replicate (width - digits.length) '0' ++ digits)

def Date.text (d : Date) : String :=
  padded 4 d.year ++ "-" ++ padded 2 d.month ++ "-" ++ padded 2 d.day

def Date.inspect (d : Date) : String :=
  "datetime.date(" ++ intText d.year ++ ", " ++ intText d.month ++ ", " ++ intText d.day ++ ")"

namespace Value

mutual

def inspect : Value → String
  | .null => "None"
  | .undefined => "undefined"
  | .bool b => if b then "True" else "False"
  | .int n => intText n
  | .float x => floatText x
  | .str s => quoted s
  | .list items => "[" ++ ", ".intercalate (inspectItems items) ++ "]"
  | .tuple items => match inspectItems items with
    | [single] => "(" ++ single ++ ",)"
    | texts => "(" ++ ", ".intercalate texts ++ ")"
  | .set items => match inspectItems items with
    | [] => "set()"
    | texts => "\x7b" ++ ", ".intercalate texts ++ "\x7d"
  | .dict entries => "\x7b" ++ ", ".intercalate (inspectEntries entries) ++ "\x7d"
  | .date d => d.inspect
  | .function _ => "<function>"

def inspectItems : List Value → List String
  | [] => []
  | v :: rest => inspect v :: inspectItems rest

def inspectEntries : List (Value × Value) → List String
  | [] => []
  | (k, v) :: rest => (inspect k ++ ": " ++ inspect v) :: inspectEntries rest

end

def display : Value → String
  | .str s => s
  | .date d => d.text
  | v => inspect v

mutual

def text : Value → String
  | .null | .undefined => ""
  | .str s => s
  | .bool b => if b then "true" else "false"
  | .float x => if x.isIntegral then intText x.toInt else floatText x
  | .list items | .tuple items => ",".intercalate (textItems items)
  | v => display v

def textItems : List Value → List String
  | [] => []
  | v :: rest => text v :: textItems rest

end

def joinText (parts : List Value) : String := String.join (textItems parts)

mutual

/-- Whether no integer in a value is beyond the digit limit. -/
def hasText : Value → Bool
  | .int n => Number.hasText n
  | .list items | .tuple items | .set items => allHaveText items
  | .dict entries => entriesHaveText entries
  | _ => true

def allHaveText : List Value → Bool
  | [] => true
  | v :: rest => hasText v && allHaveText rest

def entriesHaveText : List (Value × Value) → Bool
  | [] => true
  | (k, v) :: rest => hasText k && hasText v && entriesHaveText rest

end

def display? (v : Value) : Option String := if v.hasText then some v.display else none

def text? (v : Value) : Option String := if v.hasText then some v.text else none

def joinText? (parts : List Value) : Option String :=
  if allHaveText parts then some (joinText parts) else none

theorem textItems_eq_map (items : List Value) : textItems items = items.map text := by
  induction items with
  | nil => rfl
  | cons v rest ih => simp [textItems, ih]

theorem allHaveText_eq_all (items : List Value) : allHaveText items = items.all hasText := by
  induction items with
  | nil => rfl
  | cons v rest ih => rw [allHaveText, ih, List.all_cons]

theorem entriesHaveText_eq_all (entries : List (Value × Value)) :
    entriesHaveText entries = entries.all fun e => e.1.hasText && e.2.hasText := by
  induction entries with
  | nil => rfl
  | cons e rest ih => rw [entriesHaveText, ih, List.all_cons]

end Value

end MessageCatalog
