import MessageCatalog.Phrase.Basic
import MessageCatalog.Value.Json

/-!
# Phrases as JSON

Each node is written as an object with its type and its parts. A literal that is undefined has no
value.
-/
namespace MessageCatalog

namespace Expr

def record (type : String) (fields : List (String × Value)) : Value :=
  .dict ((.str "type", .str type) :: fields.map fun f => (.str f.1, f.2))

mutual

def toValue : Expr → Value
  | .literal .undefined => record "Literal" []
  | .literal v => record "Literal" [("value", v)]
  | .identifier n => record "Identifier" [("name", .str n)]
  | .call c xs => record "CallExpression" [("callee", .str c), ("arguments", .list (toValues xs))]
  | .array xs => record "ArrayExpression" [("elements", .list (toValues xs))]
  | .object ps => record "ObjectExpression" [("properties", .dict (toEntries ps))]
  | .template xs => record "TemplateLiteral" [("parts", .list (toValues xs))]
  | .unknown k => record k []

def toValues : List Expr → List Value
  | [] => []
  | x :: xs => toValue x :: toValues xs

def toEntries : List (String × Expr) → List (Value × Value)
  | [] => []
  | (k, x) :: ps => (.str k, toValue x) :: toEntries ps

end

end Expr

def Phrase.toValue (p : Phrase) : Value := .list (Expr.toValues p)

def Phrase.json (p : Phrase) : Except JsonError String := p.toValue.json

end MessageCatalog
