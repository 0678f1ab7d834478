import MessageCatalog.Catalog.Rendering
import MessageCatalog.Catalog.Session
import MessageCatalog.CommandLine.Arguments
import MessageCatalog.CommandLine.Variables
import MessageCatalog.Phrase.Json
import MessageCatalog.PhraseFile.Read

/-!
# Commands

What the commands write: the tokens of a phrase, its syntax tree, a rendered phrase of a phrase
file, or the keys of a phrase file. Trees, tokens and keys are written as JSON. A command that
fails in a way that authors and callers can mend writes the message instead.
-/
namespace MessageCatalog.CommandLine

inductive Outcome where
  | printed (output : String)
  | refused (message : String)
  | information
  | misuse
  | crashed (error : RenderError)
  | unwritable (error : JsonError)
deriving DecidableEq

def pathParts (cs : List Char) : List (List Char) :=
  (cs.splitOn '/').filter fun part => !part.isEmpty && part != ['.']

/-- A path without what makes no difference: empty parts and those that stay in place. A path may
begin with one slash or with two. -/
def cleanPath (path : String) : String :=
  let cs := path.toList
  let slashes := (cs.takeWhile (· == '/')).length
  let root := if slashes == 0 then [] else if slashes == 2 then ['/', '/'] else ['/']
  let clean := root ++ List.intercalate ['/'] (pathParts cs)
  if clean.isEmpty then "." else String.ofList clean

namespace Outcome

def refuse (message : String) : Outcome := .refused (Text.trimRight message)

def ofRenderError (e : RenderError) : Outcome :=
  match e with
  | .unknownNode _ | .host _ => .crashed e
  | e => match e.message? with
    | some message => refuse message
    | none => .crashed e

def ofParseError (e : ParseError) : Outcome := ofRenderError (.phrase e)

def ofJson : Except JsonError String → Outcome
  | .ok s => .printed s
  | .error .overlongInteger => refuse Number.overlongIntegerMessage
  | .error e => .unwritable e

end Outcome

def tokenValue (t : Token) : Value :=
  .dict [(.str "type", .str t.kind.name), (.str "value", .str t.value),
    (.str "position", .int t.position)]

def loadCatalog (files : String → Option String) (path : String) : Except Outcome Catalog :=
  match PhraseFile.read (files path) with
  | .error e => .error (.refuse (e.report (cleanPath path)))
  | .ok file => match file.catalog with
    | .error e => .error (.refuse e.message)
    | .ok catalog => .ok catalog

def renderWith (catalog : Catalog) (key : String) (assignments : List String) : Outcome :=
  match contextOf assignments with
  | .error e => .refuse e.message
  | .ok context =>
    match catalog.render .empty renderDepth (.str key) (.dict context) ⟨.new none none, []⟩ with
    | .ok s _ => .printed s
    | .error e _ => .ofRenderError e

def Command.run (files : String → Option String) : Command → Outcome
  | .tokens text => match Token.scan text with
    | .ok ts => .ofJson (Value.list (ts.map tokenValue)).json
    | .error e => .ofParseError (.syntaxError e)
  | .parse text => match Phrase.parse text with
    | .ok phrase => .ofJson phrase.json
    | .error e => .ofParseError e
  | .render file key assignments => match loadCatalog files file with
    | .ok catalog => renderWith catalog key assignments
    | .error outcome => outcome
  | .keys file => match loadCatalog files file with
    | .ok catalog => .ofJson (Value.list (catalog.keys.map .str)).json
    | .error outcome => outcome

def run (files : String → Option String) (arguments : List String) : Outcome :=
  match Request.ofArguments arguments with
  | .command command => command.run files
  | .information => .information
  | .misuse => .misuse

end MessageCatalog.CommandLine
