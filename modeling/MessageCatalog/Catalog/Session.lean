import MessageCatalog.Catalog.Rendering

/-!
# Sessions

Catalogs and memos by their names, and the steps that use them. Catalogs that name the same memo
share it. A step on a catalog changes at most this catalog and its memo, and adds the calls of the
host to the record.
-/
namespace MessageCatalog

structure Shelf where
  catalog : Catalog
  memoName : String

structure Session where
  memos : List (String × ParseMemo)
  shelves : List (String × Shelf)
  calls : List HostCall

inductive CatalogAction where
  | extendMessages (messages : List (Value × Value))
  | extendContext (context : List (Value × Value))
  | has (key : String)
  | isMemoized (key : String)
  | keys
  | texts
  | context
  | render (key context : Value)
  | renderParts (key context : Value)
  | category (v : Value) (ordinal : Bool)
  | select (v type phrases : Value)

inductive SessionStep where
  | new (id locale : String) (messages context : List (Value × Value)) (memoName : String)
      (environment : Option String) (flag : Option Bool)
  | act (id : String) (action : CatalogAction)
  | memo (name : String) (step : MemoStep)

inductive SessionError where
  | rendering (error : RenderError)
  | badEntry (error : BadEntry)
  | unknownCatalog (id : String)

inductive SessionAnswer where
  | done
  | extended
  | flag (answer : Bool)
  | text (s : String)
  | parts (values : List Value)
  | names (keys : List String)
  | texts (entries : List (String × String))
  | values (entries : Locals)
  | memo (answer : MemoAnswer)

def renderDepth : Nat := 1000

namespace Session

def empty : Session := ⟨[], [], []⟩

/-- The memo of a name; one that has not been made yet is disabled and empty. -/
def memoNamed (s : Session) (name : String) : ParseMemo :=
  (s.memos.lookup name).getD (.new none (some false))

def sortByKey {α : Type} (entries : List (String × α)) : List (String × α) :=
  entries.mergeSort fun a b => a.1 ≤ b.1

def textAnswer : Except RenderError String → Except SessionError SessionAnswer
  | .ok text => .ok (.text text)
  | .error e => .error (.rendering e)

def finish {α : Type} (s : Session) (memoName : String) (answer : α → SessionAnswer)
    (result : EStateM.Result RenderError RenderState α) :
    Except SessionError SessionAnswer × Session :=
  match result with
  | .ok a r => (.ok (answer a),
      { s with memos := Entries.put memoName r.memo s.memos, calls := r.calls })
  | .error e r => (.error (.rendering e),
      { s with memos := Entries.put memoName r.memo s.memos, calls := r.calls })

def renderState (s : Session) (shelf : Shelf) : RenderState :=
  ⟨s.memoNamed shelf.memoName, s.calls⟩

def act (host : Host) (depth : Nat) (s : Session) (id : String) (shelf : Shelf) :
    CatalogAction → Except SessionError SessionAnswer × Session
  | .extendMessages messages =>
    let memo := s.memoNamed shelf.memoName
    match shelf.catalog.extendMessages memo messages with
    | .error e => (.error (.badEntry e), s)
    | .ok (catalog, memo) => (.ok .extended,
        { s with
          memos := Entries.put shelf.memoName memo s.memos
          shelves := Entries.put id { shelf with catalog := catalog } s.shelves })
  | .extendContext context => (.ok .extended,
      { s with
        shelves :=
          Entries.put id { shelf with catalog := shelf.catalog.extendContext context } s.shelves })
  | .has key => (.ok (.flag (shelf.catalog.hasText key)), s)
  | .isMemoized key => (.ok (.flag ((s.memoNamed shelf.memoName).contains key)), s)
  | .keys => (.ok (.names shelf.catalog.keys), s)
  | .texts => (.ok (.texts (sortByKey shelf.catalog.texts)), s)
  | .context => (.ok (.values (sortByKey shelf.catalog.context)), s)
  | .render key context =>
    s.finish shelf.memoName .text
      (shelf.catalog.render host depth key context (s.renderState shelf))
  | .renderParts key context =>
    s.finish shelf.memoName .parts
      (shelf.catalog.renderParts host depth key context (s.renderState shelf))
  | .category v ordinal => (textAnswer ((shelf.catalog.pluralCategory v ordinal).map (·.name)), s)
  | .select v type phrases => (textAnswer (shelf.catalog.selectPhrase v type phrases), s)

/-- One step. A catalog whose messages are malformed is not made, but its memo is, and a
catalog that had its name is gone. -/
def apply (host : Host) (depth : Nat) (s : Session) :
    SessionStep → Except SessionError SessionAnswer × Session
  | .new id locale messages context memoName environment flag =>
    let memo := (s.memos.lookup memoName).getD (.new environment flag)
    match (Catalog.new locale context).extendMessages memo messages with
    | .error e => (.error (.badEntry e),
        { s with
          memos := Entries.put memoName memo s.memos
          shelves := Entries.remove id s.shelves })
    | .ok (catalog, memo) => (.ok .done,
        { s with
          memos := Entries.put memoName memo s.memos
          shelves := Entries.put id ⟨catalog, memoName⟩ s.shelves })
  | .act id action => match s.shelves.lookup id with
    | none => (.error (.unknownCatalog id), s)
    | some shelf => s.act host depth id shelf action
  | .memo name step => match s.memos.lookup name with
    | none => (.ok .done, s)
    | some memo =>
      let (answer, memo) := step.apply memo
      (.ok (.memo answer), { s with memos := Entries.put name memo s.memos })

def memoOf? (s : Session) (id : String) : Option ParseMemo :=
  (s.shelves.lookup id).map fun shelf => s.memoNamed shelf.memoName

def run (host : Host) (depth : Nat) (s : Session) :
    List SessionStep → List (Except SessionError SessionAnswer × Session)
  | [] => []
  | step :: rest =>
    let (answer, s) := s.apply host depth step
    (answer, s) :: s.run host depth rest

end Session

end MessageCatalog
