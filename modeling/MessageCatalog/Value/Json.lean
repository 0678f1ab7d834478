import MessageCatalog.Number.Text
import MessageCatalog.Text.Quoted
import MessageCatalog.Value.Basic

/-!
# Values as JSON

Items are separated by a comma and a space, keys and values by a colon and a space. Strings keep
every character but the quote, the backslash and the controls below the space. Undefined is written
as null, tuples and sets as arrays, and what is no finite number as `NaN`, `Infinity` or
`-Infinity`. Numbers, truth values and null may be keys, by their text. Dates and functions have no
written form, and integers beyond the digit limit have none either.
-/
namespace MessageCatalog
open Number Text

inductive JsonError where
  | notSerializable (typeName : String)
  | badKey
  | overlongInteger
deriving DecidableEq

namespace Value

def jsonChar (c : Char) : List Char :=
  if c = '"' then ['\\', '"']
  else if c = '\\' then ['\\', '\\']
  else if c = '\n' then ['\\', 'n']
  else if c = '\r' then ['\\', 'r']
  else if c = '\t' then ['\\', 't']
  else if c = '\x08' then ['\\', 'b']
  else if c = '\x0c' then ['\\', 'f']
  else if c.toNat < 0x20 then '\\' :: 'u' :: hexDigits 4 c.toNat
  else [c]

def jsonString (s : String) : List Char := '"' :: s.toList.flatMap jsonChar ++ ['"']

def jsonFloat : Binary64 → List Char
  | .nan => "NaN".toList
  | .infinite negative => (if negative then ['-'] else []) ++ "Infinity".toList
  | x => floatChars x

def jsonKey : Value → Except JsonError String
  | .str s => .ok s
  | .int n => if Number.hasText n then .ok (intText n) else .error .overlongInteger
  | .float x => .ok (String.ofList (jsonFloat x))
  | .bool b => .ok (if b then "true" else "false")
  | .null => .ok "null"
  | _ => .error .badKey

def commaSeparated : List (List Char) → List Char
  | [] => []
  | [item] => item
  | item :: rest => item ++ ',' :: ' ' :: commaSeparated rest

mutual

def jsonChars : Value → Except JsonError (List Char)
  | .null | .undefined => .ok "null".toList
  | .bool b => .ok (if b then "true".toList else "false".toList)
  | .int n => if Number.hasText n then .ok (intChars n) else .error .overlongInteger
  | .float x => .ok (jsonFloat x)
  | .str s => .ok (jsonString s)
  | .list items | .tuple items | .set items => do
    let texts ← jsonItems items
    return '[' :: commaSeparated texts ++ [']']
  | .dict entries => do
    let texts ← jsonEntries entries
    return '\x7b' :: commaSeparated texts ++ ['\x7d']
  | v@(.date _) | v@(.function _) => .error (.notSerializable v.typeName)

def jsonItems : List Value → Except JsonError (List (List Char))
  | [] => .ok []
  | v :: rest => do
    let text ← jsonChars v
    let texts ← jsonItems rest
    return text :: texts

def jsonEntries : List (Value × Value) → Except JsonError (List (List Char))
  | [] => .ok []
  | (k, v) :: rest => do
    let key ← jsonKey k
    let text ← jsonChars v
    let texts ← jsonEntries rest
    return (jsonString key ++ ':' :: ' ' :: text) :: texts

end

def json (v : Value) : Except JsonError String := (jsonChars v).map String.ofList

end Value

end MessageCatalog
