import MessageCatalog.Proofs.ExtendedMessages

/-!
# Paths of messages

A text among nested messages is known by the names on the way down to it. Its key is made of these
names alone: points stand between them, and the empty names in front do not count. Flattening puts
the texts under their keys one by one, in the order in which they stand, and it fails at the first
leaf that is no text, or at a name without text if that comes first.
-/
namespace MessageCatalog.MessageTree

mutual

/-- The leaves of a value with the names on the way to them, in order. -/
def leavesAt (path : List String) : Value → List (Option (List String × Value))
  | .dict entries => leavesIn path entries
  | v => [some (path, v)]

def leavesIn (path : List String) : List (Value × Value) → List (Option (List String × Value))
  | [] => []
  | (name, v) :: rest => match name.display? with
    | some shown => leavesAt (path ++ [shown]) v ++ leavesIn path rest
    | none => none :: leavesIn path rest

end

def textsAt (texts : List (List String × String)) : List (Option (List String × Value)) :=
  texts.map fun t => some (t.1, .str t.2)

def keyOf (path : List String) : String := ".".intercalate (path.dropWhile String.isEmpty)

def keyed {α : Type} (leaf : List String × α) : String × α := (keyOf leaf.1, leaf.2)

theorem isEmpty_keyOf (path : List String) :
    (keyOf path).isEmpty = (path.dropWhile String.isEmpty).isEmpty := by
  unfold keyOf
  cases hnames : path.dropWhile String.isEmpty with
  | nil => rfl
  | cons name names =>
    have hname : name.isEmpty = false := by
      have h := List.head?_dropWhile_not String.isEmpty path
      rwa [hnames] at h
    cases names with
    | nil => rw [String.intercalate_singleton, hname, List.isEmpty_cons]
    | cons next names =>
      rw [String.intercalate_cons_cons]
      simp

theorem keyOf_singleton (name : String) : keyOf [name] = name := by
  by_cases hname : name.isEmpty = true
  · have hkey : keyOf [name] = "" := by simp [keyOf, List.dropWhile, hname]
    rw [hkey, String.isEmpty_iff.1 hname]
  · simp [keyOf, List.dropWhile, hname]

theorem join_keyOf (path : List String) (name : String) :
    join (keyOf path) name = keyOf (path ++ [name]) := by
  rw [join, isEmpty_keyOf, keyOf, keyOf, List.dropWhile_append]
  split
  · exact (keyOf_singleton name).symm
  · next hnames =>
    have hne : path.dropWhile String.isEmpty ≠ [] := by simpa using hnames
    rw [String.intercalate_append_of_ne_nil hne (by simp), String.intercalate_singleton]

mutual

theorem leaves_keyOf (path : List String) (v : Value) :
    leaves (keyOf path) v = (leavesAt path v).map (Option.map keyed) := by
  cases v with
  | dict entries => exact leavesOf_keyOf path entries
  | _ => rfl

theorem leavesOf_keyOf (path : List String) (entries : List (Value × Value)) :
    leavesOf (keyOf path) entries = (leavesIn path entries).map (Option.map keyed) := by
  cases entries with
  | nil => rfl
  | cons entry rest =>
    obtain ⟨name, v⟩ := entry
    rw [leavesOf, leavesIn]
    cases name.display? with
    | none => exact congrArg (none :: ·) (leavesOf_keyOf path rest)
    | some shown =>
      simp only [List.map_append, join_keyOf, leaves_keyOf (path ++ [shown]) v,
        leavesOf_keyOf path rest]

end

theorem texts_or_first_other (ls : List (Option (List String × Value))) :
    (∃ texts, ls = textsAt texts) ∨
    (∃ texts path v rest, ls = textsAt texts ++ some (path, v) :: rest ∧ ∀ text, v ≠ .str text) ∨
    ∃ texts rest, ls = textsAt texts ++ none :: rest := by
  induction ls with
  | nil => exact .inl ⟨[], rfl⟩
  | cons l ls ih =>
    cases l with
    | none => exact .inr (.inr ⟨[], ls, rfl⟩)
    | some l =>
      obtain ⟨path, v⟩ := l
      by_cases hv : ∃ text, v = .str text
      · obtain ⟨text, rfl⟩ := hv
        rcases ih with ⟨texts, rfl⟩ | ⟨texts, path', v, rest, rfl, hother⟩ | ⟨texts, rest, rfl⟩
        · exact .inl ⟨(path, text) :: texts, rfl⟩
        · exact .inr (.inl ⟨(path, text) :: texts, path', v, rest, rfl, hother⟩)
        · exact .inr (.inr ⟨(path, text) :: texts, rest, rfl⟩)
      · exact .inr (.inl ⟨[], path, v, ls, rfl, fun text h => hv ⟨text, h⟩⟩)

theorem keyed_textsAt (texts : List (List String × String)) :
    (textsAt texts).map (Option.map keyed) = textLeaves (texts.map keyed) := by
  rw [textsAt, textLeaves, List.map_map, List.map_map]
  rfl

end MessageCatalog.MessageTree
