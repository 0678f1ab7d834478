import MessageCatalog.Catalog.Basic
import MessageCatalog.Rendering.Host

/-!
# Rendering

A phrase of a catalog is rendered by parsing its text, which the memo may know already, and
evaluating it in the default context of the catalog with the context of this rendering on top.
Phrases may render other phrases; how deep they may do so is bounded by a number, and a phrase that
renders itself without end fails when the bound is reached.
-/
namespace MessageCatalog

structure RenderState where
  memo : ParseMemo
  calls : List HostCall

namespace Catalog

def phraseOf (key text : String) : Eval RenderState Phrase := fun s =>
  match s.memo.getOrParse key text with
  | (.ok phrase, memo) => .ok phrase { s with memo := memo }
  | (.error e, memo) => .error (.phrase e) { s with memo := memo }

def record (call : HostCall) : Eval RenderState Unit :=
  modify fun s => { s with calls := s.calls ++ [call] }

def call {σ : Type} (c : Catalog) (host : Host) (record : HostCall → Eval σ Unit)
    (render : Value → Value → Eval σ (List Value)) : Callable → List Value → Eval σ Value
  | .host f, arguments => do
    record ⟨f, arguments⟩
    .lift ((host.run f arguments).mapError .host)
  | .helper .render, [key] => do return .str (← Value.writeAll (← render key .null))
  | .helper .render, [key, context] => do return .str (← Value.writeAll (← render key context))
  | .helper .renderParts, [key] => do return .list (← render key .null)
  | .helper .renderParts, [key, context] => do return .list (← render key context)
  | .helper .selectPhrase, [v, type, phrases] => .lift ((c.selectPhrase v type phrases).map .str)
  | .helper .pluralRule, [v] => .lift ((c.pluralCategory v false).map fun k => .str k.name)
  | .helper .ordinalRule, [v] => .lift ((c.pluralCategory v true).map fun k => .str k.name)
  | .helper _, arguments => throw (.argumentCount arguments.length)

def renderParts (c : Catalog) (host : Host) :
    Nat → Value → Value → Eval RenderState (List Value)
  | 0, _, _ => throw .tooDeep
  | depth + 1, key, context => do
    let (name, text) ← .lift (c.textOf key)
    let phrase ← phraseOf name text
    let locals ← .lift (c.localsWith context)
    phrase.evaluate (c.call host record (c.renderParts host depth)) locals

def render (c : Catalog) (host : Host) (depth : Nat) (key context : Value) :
    Eval RenderState String := do
  Value.writeAll (← c.renderParts host depth key context)

end Catalog

end MessageCatalog
