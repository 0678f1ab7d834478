import MessageCatalog.Catalog.Session
import MessageCatalog.Proofs.OverlaidEntries

/-!
# Extending messages

Messages are flattened before anything changes: their texts by the paths to them, or the first leaf
that is no text. So extending a catalog is all or nothing, and it touches the texts of this catalog
and what its memo keeps for their keys.
-/
namespace MessageCatalog

namespace MessageTree

mutual

/-- The leaves of a value with the paths to them, in order: a group has those of its entries.
Nothing stands for an entry whose name has no text, as there is no path to what is below it. -/
def leaves (path : String) : Value → List (Option (String × Value))
  | .dict entries => leavesOf path entries
  | v => [some (path, v)]

def leavesOf (group : String) : List (Value × Value) → List (Option (String × Value))
  | [] => []
  | (name, v) :: rest => match name.display? with
    | some shown => leaves (join group shown) v ++ leavesOf group rest
    | none => none :: leavesOf group rest

end

def textsOf : List (Option (String × Value)) → Except BadEntry (List (String × String))
  | [] => .ok []
  | some (path, .str text) :: rest => (textsOf rest).map ((path, text) :: ·)
  | some (path, v) :: _ => .error (.notMessage path v.typeName)
  | none :: _ => .error .overlongName

def textLeaves (texts : List (String × String)) : List (Option (String × Value)) :=
  texts.map fun t => some (t.1, .str t.2)

theorem textsOf_append (ls ms : List (Option (String × Value))) :
    textsOf (ls ++ ms) = (textsOf ls).bind fun texts => (textsOf ms).map (texts ++ ·) := by
  induction ls with
  | nil => cases h : textsOf ms <;> simp [textsOf, h, Except.bind, Except.map]
  | cons l ls ih =>
    cases l with
    | none => rfl
    | some l =>
      obtain ⟨path, v⟩ := l
      cases v with
      | str text =>
        rw [List.cons_append, textsOf, textsOf, ih]
        cases textsOf ls with
        | error e => rfl
        | ok texts => cases textsOf ms <;> rfl
      | _ => rfl

theorem textsOf_textLeaves (texts : List (String × String)) :
    textsOf (textLeaves texts) = .ok texts := by
  induction texts with
  | nil => rfl
  | cons t texts ih =>
    rw [textLeaves, List.map_cons, textsOf]
    exact congrArg _ ih

theorem textsOf_bad {path : String} {v : Value} (h : ∀ text, v ≠ .str text)
    (rest : List (Option (String × Value))) :
    textsOf (some (path, v) :: rest) = .error (.notMessage path v.typeName) := by
  cases v with
  | str text => exact absurd rfl (h text)
  | _ => rfl

-- By induction on the messages: a group is flattened by itself and then put on top of what is at
-- hand, which is as good as putting its texts there one by one.
mutual

theorem flattenValue_eq (path : String) (v : Value) :
    flattenValue path v = (textsOf (leaves path v)).map Entries.ofPairs := by
  cases v with
  | dict entries => exact flattenEntries_eq path [] entries
  | _ => rfl

theorem flattenEntries_eq (group : String) (flat : List (String × String))
    (entries : List (Value × Value)) : flattenEntries group flat entries =
      (textsOf (leavesOf group entries)).map (Entries.overlay flat) := by
  cases entries with
  | nil => rfl
  | cons entry rest =>
    obtain ⟨name, v⟩ := entry
    rw [flattenEntries, leavesOf]
    cases name.display? with
    | none => rfl
    | some shown =>
      simp only [textsOf_append, flattenValue_eq (join group shown) v]
      cases textsOf (leaves (join group shown) v) with
      | error e => rfl
      | ok texts =>
        have hrest := flattenEntries_eq group (Entries.overlay flat texts) rest
        simp only [Except.map, Except.bind, Entries.overlay_ofPairs, hrest]
        cases textsOf (leavesOf group rest) with
        | error e => rfl
        | ok more => exact congrArg Except.ok List.foldl_append.symm

end

theorem flatten_eq (entries : List (Value × Value)) :
    flatten "" entries = (textsOf (leavesOf "" entries)).map Entries.ofPairs :=
  flattenEntries_eq "" [] entries

theorem exists_texts_of_flatten {entries : List (Value × Value)} {flat : List (String × String)}
    (h : flatten "" entries = .ok flat) : ∃ texts, flat = Entries.ofPairs texts := by
  rw [flatten_eq] at h
  cases ht : textsOf (leavesOf "" entries) with
  | error e => simp [ht, Except.map] at h
  | ok texts =>
    rw [ht] at h
    cases h
    exact ⟨texts, rfl⟩

end MessageTree

namespace ParseMemo

theorem lookup_evictMany (m : ParseMemo) (keys : List String) (key : String) :
    (m.evictMany keys).2.entries.lookup key =
      if keys.contains key then none else m.entries.lookup key := by
  induction keys generalizing m with
  | nil => rfl
  | cons first keys ih =>
    have hstep : (m.evictMany (first :: keys)).2 = ((m.evict first).evictMany keys).2 := rfl
    rw [hstep, ih, evict, List.contains_cons]
    by_cases hk : key = first
    · subst hk
      simp [Entries.lookup_remove_self]
    · have hne : (key == first) = false := by simpa using hk
      rw [Entries.lookup_remove_of_ne hk, hne, Bool.false_or]

theorem evictMany_eq (m : ParseMemo) (keys : List String) :
    (m.evictMany keys).2 = { m with entries := (m.evictMany keys).2.entries } := by
  induction keys generalizing m with
  | nil => rfl
  | cons key keys ih => exact ih (m.evict key)

end ParseMemo

namespace Session

/-- A session in which a catalog has been extended by flat messages and all else is as it was: the
texts of this catalog are the old ones with the messages on top, and its memo has lost what it kept
for their keys. -/
structure IsExtended (s : Session) (id : String) (shelf : Shelf) (flat : List (String × String))
    (s' : Session) : Prop where
  texts : ∃ texts, s'.shelves.lookup id = some { shelf with catalog.texts := texts } ∧
    ∀ key, texts.lookup key = (flat.lookup key).or (shelf.catalog.texts.lookup key)
  shelves : ∀ other, other ≠ id → s'.shelves.lookup other = s.shelves.lookup other
  evicted : ∀ key, Entries.contains key flat = true →
    (s'.memoNamed shelf.memoName).contains key = false
  kept : ∀ key, Entries.contains key flat = false →
    (s'.memoNamed shelf.memoName).entries.lookup key =
      (s.memoNamed shelf.memoName).entries.lookup key
  counts : s'.memoNamed shelf.memoName =
    { s.memoNamed shelf.memoName with entries := (s'.memoNamed shelf.memoName).entries }
  memos : ∀ name, name ≠ shelf.memoName → s'.memos.lookup name = s.memos.lookup name
  calls : s'.calls = s.calls

theorem isExtended_of_flatten (s : Session) (id : String) (shelf : Shelf)
    {messages : List (Value × Value)} {flat : List (String × String)}
    (h : MessageTree.flatten "" messages = .ok flat) :
    s.IsExtended id shelf flat
      { s with
        memos := Entries.put shelf.memoName
          ((s.memoNamed shelf.memoName).evictMany (flat.map (·.1))).2 s.memos
        shelves := Entries.put id
          { shelf with catalog.texts := Entries.overlay shelf.catalog.texts flat } s.shelves } := by
  let evicted := ((s.memoNamed shelf.memoName).evictMany (flat.map (·.1))).2
  have hmemo (shelves : List (String × Shelf)) : memoNamed
      ⟨Entries.put shelf.memoName evicted s.memos, shelves, s.calls⟩ shelf.memoName = evicted := by
    rw [memoNamed, Entries.lookup_put_self]
    rfl
  have hlookup (key : String) : evicted.entries.lookup key =
      if Entries.contains key flat then none
      else (s.memoNamed shelf.memoName).entries.lookup key := by
    rw [ParseMemo.lookup_evictMany, Entries.contains_keys]
  obtain ⟨texts, rfl⟩ := MessageTree.exists_texts_of_flatten h
  exact {
    texts := ⟨_, Entries.lookup_put_self id _ _, Entries.lookup_overlay_ofPairs _ _⟩
    shelves := fun other ho => Entries.lookup_put_of_ne ho _ _
    evicted := fun key hk => by
      rw [hmemo, ParseMemo.contains, Entries.contains, hlookup, if_pos hk]
      rfl
    kept := fun key hk => by
      rw [hmemo, hlookup, hk]
      rfl
    counts := by
      rw [hmemo]
      exact ParseMemo.evictMany_eq _ _
    memos := fun name hn => Entries.lookup_put_of_ne hn _ _
    calls := rfl }

/-- Extending the messages of a catalog is all or nothing, whatever other catalogs there are and
whichever of them share its memo. If the messages can be flattened, then just the texts of the
catalog change, and its memo loses just what it kept for the keys of the messages. If there is a
leaf among them that is no text, at any depth and after any number of texts, or a name without
text, then nothing changes. -/
theorem apply_extendMessages (host : Host) (depth : Nat) {s : Session} {id : String} {shelf : Shelf}
    (h : s.shelves.lookup id = some shelf) (messages : List (Value × Value)) :
    (∀ flat, MessageTree.flatten "" messages = .ok flat →
      ∃ s', s.apply host depth (.act id (.extendMessages messages)) = (.ok .extended, s') ∧
        s.IsExtended id shelf flat s') ∧
    (∀ e, MessageTree.flatten "" messages = .error e →
      s.apply host depth (.act id (.extendMessages messages)) = (.error (.badEntry e), s)) ∧
    (∀ (texts : List (String × String)) path v rest,
      MessageTree.leavesOf "" messages =
        MessageTree.textLeaves texts ++ some (path, v) :: rest → (∀ text, v ≠ .str text) →
      s.apply host depth (.act id (.extendMessages messages)) =
        (.error (.badEntry (.notMessage path v.typeName)), s)) ∧
    ∀ (texts : List (String × String)) rest,
      MessageTree.leavesOf "" messages = MessageTree.textLeaves texts ++ none :: rest →
      s.apply host depth (.act id (.extendMessages messages)) =
        (.error (.badEntry .overlongName), s) := by
  have hact : s.apply host depth (.act id (.extendMessages messages)) =
      s.act host depth id shelf (.extendMessages messages) := by rw [apply, h]
  have hbad : ∀ e, MessageTree.flatten "" messages = .error e →
      s.apply host depth (.act id (.extendMessages messages)) = (.error (.badEntry e), s) := by
    intro e he
    simp only [hact, act, Catalog.extendMessages, he]
  refine ⟨fun flat hflat => ?_, hbad, fun texts path v rest hleaves hv => hbad _ ?_,
    fun texts rest hleaves => hbad _ ?_⟩
  · refine ⟨_, ?_, s.isExtended_of_flatten id shelf hflat⟩
    simp only [hact, act, Catalog.extendMessages, hflat]
  · rw [MessageTree.flatten_eq, hleaves, MessageTree.textsOf_append,
      MessageTree.textsOf_textLeaves, MessageTree.textsOf_bad hv]
    rfl
  · rw [MessageTree.flatten_eq, hleaves, MessageTree.textsOf_append,
      MessageTree.textsOf_textLeaves]
    rfl

theorem apply_extendMessages_shared :
    let memo : ParseMemo := ⟨true, [("a.b", "x", [.text "x"]), ("c", "z", [.text "z"])], 1, 2, 2⟩
    let first : Shelf := ⟨⟨"en", [("a.b", "x")], []⟩, "memo"⟩
    let second : Shelf := ⟨⟨"de", [("a.b", "x"), ("c", "z")], []⟩, "memo"⟩
    let s : Session := ⟨[("memo", memo)], [("first", first), ("second", second)], []⟩
    let good := [(.str "a", .dict [(.str "b", .str "y")]), (.str "a.b", .str "w")]
    let bad := [(.str "c", .str "v"), (.str "a", .dict [(.str "b", .str "y"), (.str "d", .int 1)])]
    (∃ s', s.apply .empty renderDepth (.act "first" (.extendMessages good)) =
        (.ok .extended, s') ∧
      s.IsExtended "first" first [("a.b", "w")] s') ∧
    s.apply .empty renderDepth (.act "first" (.extendMessages bad)) =
      (.error (.badEntry (.notMessage "a.d" "int")), s) := by
  intro memo first second s good bad
  have h : s.shelves.lookup "first" = some first := rfl
  exact ⟨(apply_extendMessages .empty renderDepth h good).1 _ rfl,
    (apply_extendMessages .empty renderDepth h bad).2.2.1 [("c", "v"), ("a.b", "y")] "a.d" (.int 1)
      [] rfl (by simp)⟩

end Session

end MessageCatalog
