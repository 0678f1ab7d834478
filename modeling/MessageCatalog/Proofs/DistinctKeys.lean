import Mathlib.Data.List.Nodup
import Mathlib.Data.List.Perm.Subperm
import MessageCatalog.Proofs.MessagePaths

/-!
# Distinct keys

Where no name among nested messages has a point in it, a key can be taken apart into the names of
its path again. Only empty names in front leave no trace in a key, so two texts have one key just
if their paths differ in these alone. Without a group under the empty name at the top there are no
such paths, and flattening loses no text.
-/
namespace MessageCatalog

namespace Entries

variable {κ ν : Type} [BEq κ] [LawfulBEq κ]

theorem ofPairs_of_nodup {pairs : List (κ × ν)} (h : (pairs.map Prod.fst).Nodup) :
    ofPairs pairs = pairs := by
  induction pairs using List.reverseRecOn with
  | nil => rfl
  | append_singleton pairs e ih =>
    have hput : ofPairs (pairs ++ [e]) = put e.1 e.2 (ofPairs pairs) := List.foldl_append
    rw [List.map_append, List.nodup_append] at h
    obtain ⟨hpairs, -, hne⟩ := h
    rw [hput, ih hpairs]
    exact put_of_not_mem (fun hm => hne e.1 hm e.1 (List.mem_singleton_self _) rfl) e.2

theorem mem_keys_ofPairs {key : κ} {pairs : List (κ × ν)} :
    key ∈ (ofPairs pairs).map Prod.fst ↔ key ∈ pairs.map Prod.fst := by
  rw [keys_ofPairs, List.mem_eraseDups]

theorem length_ofPairs_eq_iff {pairs : List (κ × ν)} :
    (ofPairs pairs).length = pairs.length ↔ (pairs.map Prod.fst).Nodup := by
  refine ⟨fun h => ?_, fun h => by rw [ofPairs_of_nodup h]⟩
  have hnodup : ((ofPairs pairs).map Prod.fst).Nodup := nodup_overlay (by simp) pairs
  have hsub := List.subperm_of_subset hnodup fun _ => mem_keys_ofPairs.1
  exact (hsub.perm_of_length_le (by simp [h])).nodup_iff.1 hnodup

end Entries

namespace MessageTree

/-- Texts and groups of them. The names in a group are distinct strings without points. -/
inductive IsPlain : Value → Prop where
  | text (s : String) : IsPlain (.str s)
  | group {entries : List (String × Value)} : (entries.map Prod.fst).Nodup →
      (∀ e ∈ entries, '.' ∉ e.1.toList) → (∀ e ∈ entries, IsPlain e.2) →
      IsPlain (.dict (entries.map fun e => (.str e.1, e.2)))

theorem leavesIn_named (path : List String) (entries : List (String × Value)) :
    leavesIn path (entries.map fun e => (.str e.1, e.2)) =
      entries.flatMap fun e => leavesAt (path ++ [e.1]) e.2 := by
  induction entries with
  | nil => rfl
  | cons e entries ih =>
    rw [List.map_cons, leavesIn, ih, List.flatMap_cons]
    rfl

theorem IsPlain.leaf {v : Value} (h : IsPlain v) {path : List String}
    {leaf : Option (List String × Value)} (hleaf : leaf ∈ leavesAt path v) :
    ∃ names text, leaf = some (path ++ names, .str text) ∧ ∀ name ∈ names, '.' ∉ name.toList := by
  induction h generalizing path with
  | text s =>
    obtain rfl := List.mem_singleton.1 hleaf
    exact ⟨[], s, by simp, by simp⟩
  | @group entries _ hpoints _ ih =>
    rw [leavesAt, leavesIn_named] at hleaf
    obtain ⟨e, he, hleaf⟩ := List.mem_flatMap.1 hleaf
    obtain ⟨names, text, rfl, hnames⟩ := ih e he hleaf
    exact ⟨e.1 :: names, text, by simp, List.forall_mem_cons.2 ⟨hpoints e he, hnames⟩⟩

theorem IsPlain.top {messages : List (Value × Value)} (h : IsPlain (.dict messages))
    {leaf : Option (List String × Value)} (hleaf : leaf ∈ leavesIn [] messages) :
    ∃ name v, (.str name, v) ∈ messages ∧ IsPlain v ∧ '.' ∉ name.toList ∧
      leaf ∈ leavesAt [name] v := by
  cases h with
  | group _ hpoints hentries =>
    rw [leavesIn_named] at hleaf
    obtain ⟨e, he, hleaf⟩ := List.mem_flatMap.1 hleaf
    exact ⟨e.1, e.2, List.mem_map_of_mem he, hentries e he, hpoints e he, hleaf⟩

theorem IsPlain.exists_texts {messages : List (Value × Value)} (h : IsPlain (.dict messages)) :
    ∃ texts, leavesIn [] messages = textsAt texts := by
  have hleaf : ∀ leaf ∈ leavesIn [] messages, ∃ path text, leaf = some (path, .str text) := by
    intro leaf hleaf
    have hnames : ∃ names text, leaf = some ([] ++ names, .str text) ∧
        ∀ name ∈ names, '.' ∉ name.toList := h.leaf hleaf
    obtain ⟨names, text, rfl, -⟩ := hnames
    exact ⟨_, text, rfl⟩
  rcases texts_or_first_other (leavesIn [] messages) with
    htexts | ⟨texts, path, v, rest, htexts, hv⟩ | ⟨texts, rest, htexts⟩
  · exact htexts
  · obtain ⟨names, text, heq⟩ := hleaf (some (path, v)) (by simp [htexts])
    cases heq
    exact absurd rfl (hv text)
  · obtain ⟨names, text, heq⟩ := hleaf none (by simp [htexts])
    contradiction

def pathOf (leaf : Option (List String × Value)) : List String := (leaf.map Prod.fst).getD []

theorem map_pathOf_textsAt (texts : List (List String × String)) :
    (textsAt texts).map pathOf = texts.map Prod.fst := by
  rw [textsAt, List.map_map]
  rfl

theorem IsPlain.nodup_paths {v : Value} (h : IsPlain v) (path : List String) :
    ((leavesAt path v).map pathOf).Nodup := by
  induction h generalizing path with
  | text s => exact List.nodup_singleton _
  | @group entries hnodup hpoints hentries ih =>
    rw [leavesAt, leavesIn_named, List.map_flatMap, List.nodup_flatMap]
    refine ⟨fun e he => ih e he _, (List.pairwise_map.1 hnodup).imp_of_mem ?_⟩
    intro d e hd he hne names hnamesd hnamese
    -- Below different entries the paths differ in the name of the entry.
    obtain ⟨leafd, hleafd, rfl⟩ := List.mem_map.1 hnamesd
    obtain ⟨leafe, hleafe, heq⟩ := List.mem_map.1 hnamese
    obtain ⟨restd, textd, rfl, -⟩ := (hentries d hd).leaf hleafd
    obtain ⟨reste, texte, rfl, -⟩ := (hentries e he).leaf hleafe
    simp only [pathOf, Option.map_some, Option.getD_some, List.append_assoc,
      List.append_cancel_left_eq, List.singleton_append, List.cons.injEq] at heq
    exact hne heq.1.symm

theorem IsPlain.path {messages : List (Value × Value)} (h : IsPlain (.dict messages))
    {leaf : List String × Value} (hleaf : some leaf ∈ leavesIn [] messages) :
    leaf.1 ≠ [] ∧ ∀ name ∈ leaf.1, '.' ∉ name.toList := by
  obtain ⟨name, v, -, hv, hname, hbelow⟩ := h.top hleaf
  obtain ⟨names, text, heq, hnames⟩ := hv.leaf hbelow
  cases heq
  exact ⟨by simp, List.forall_mem_cons.2 ⟨hname, hnames⟩⟩

theorem intercalate_point_inj {names names' : List String} (h : names ≠ []) (h' : names' ≠ [])
    (hnames : ∀ name ∈ names, '.' ∉ name.toList) (hnames' : ∀ name ∈ names', '.' ∉ name.toList)
    (heq : ".".intercalate names = ".".intercalate names') : names = names' := by
  have hsplit : ∀ {ns : List String}, ns ≠ [] → (∀ name ∈ ns, '.' ∉ name.toList) →
      (".".intercalate ns).toList.splitOn '.' = ns.map String.toList := by
    intro ns hne hns
    rw [String.toList_intercalate]
    exact List.splitOn_intercalate '.' (List.forall_mem_map.2 hns) (by simpa using hne)
  have hmap : names.map String.toList = names'.map String.toList := by
    rw [← hsplit h hnames, heq, hsplit h' hnames']
  exact (List.map_inj_right fun _ _ => String.toList_inj.1).1 hmap

/-- Keys agree just if the paths do that are left without the empty names in front. -/
theorem keyOf_eq_iff {path path' : List String} (h : ∀ name ∈ path, '.' ∉ name.toList)
    (h' : ∀ name ∈ path', '.' ∉ name.toList) :
    keyOf path = keyOf path' ↔
      path.dropWhile String.isEmpty = path'.dropWhile String.isEmpty := by
  refine ⟨fun heq => ?_, fun heq => by rw [keyOf, keyOf, heq]⟩
  -- A key is empty just if no name of its path is left, and joining is injective otherwise.
  have hempty := congrArg String.isEmpty heq
  rw [isEmpty_keyOf, isEmpty_keyOf] at hempty
  by_cases hnil : path.dropWhile String.isEmpty = []
  · rw [hnil, List.isEmpty_nil] at hempty
    rw [hnil, List.isEmpty_iff.1 hempty.symm]
  · have hnil' : path'.dropWhile String.isEmpty ≠ [] := by
      intro hnil'
      rw [hnil', List.isEmpty_nil] at hempty
      exact hnil (List.isEmpty_iff.1 hempty)
    exact intercalate_point_inj hnil hnil'
      (fun name hname => h name ((List.dropWhile_sublist _).subset hname))
      (fun name hname => h' name ((List.dropWhile_sublist _).subset hname)) heq

theorem IsPlain.keyOf_top {messages : List (Value × Value)} (h : IsPlain (.dict messages))
    (hgroups : ∀ group, (.str "", .dict group) ∉ messages) {leaf : List String × Value}
    (hleaf : some leaf ∈ leavesIn [] messages) : keyOf leaf.1 = ".".intercalate leaf.1 := by
  obtain ⟨name, v, hmem, hv, -, hleaf⟩ := h.top hleaf
  by_cases hname : name = ""
  · subst hname
    cases hv with
    | text s =>
      obtain rfl := Option.some.inj (List.mem_singleton.1 hleaf)
      exact (keyOf_singleton "").trans String.intercalate_singleton.symm
    | group => exact absurd hmem (hgroups _)
  · obtain ⟨names, text, heq, -⟩ := hv.leaf hleaf
    cases heq
    have hfull : ([name] ++ names).dropWhile String.isEmpty = [name] ++ names := by simp [hname]
    rw [keyOf, hfull]

theorem flatten_of_texts {messages : List (Value × Value)} {texts : List (List String × String)}
    (h : leavesIn [] messages = textsAt texts) :
    flatten "" messages = .ok (Entries.ofPairs (texts.map keyed)) := by
  have hleaves : leavesOf "" messages = (leavesIn [] messages).map (Option.map keyed) :=
    leavesOf_keyOf [] messages
  rw [flatten_eq, hleaves, h, keyed_textsAt, textsOf_textLeaves]
  rfl

/-- Plain messages can be flattened, and different leaves have different paths. Two of them share a
key just if their paths differ in nothing but empty names in front, and a text is lost just if its
key is shared. Where no group stands under the empty name at the top, the entries are the leaves one
by one, each under all the names of its path, and no key comes twice. -/
theorem flatten_distinct {messages : List (Value × Value)} (h : IsPlain (.dict messages)) :
    ∃ (texts : List (List String × String)) (flat : List (String × String)),
      leavesIn [] messages = textsAt texts ∧ (texts.map Prod.fst).Nodup ∧
      flatten "" messages = .ok flat ∧
      (∀ s ∈ texts, ∀ t ∈ texts, keyOf s.1 = keyOf t.1 ↔
        s.1.dropWhile String.isEmpty = t.1.dropWhile String.isEmpty) ∧
      (flat.length = texts.length ↔ (texts.map fun t => keyOf t.1).Nodup) ∧
      ((∀ group, (.str "", .dict group) ∉ messages) →
        flat = texts.map (fun t => (".".intercalate t.1, t.2)) ∧ (flat.map Prod.fst).Nodup) := by
  obtain ⟨texts, htexts⟩ := h.exists_texts
  have hkeys : (texts.map keyed).map Prod.fst = texts.map fun t => keyOf t.1 := by
    rw [List.map_map]
    rfl
  have hleaf : ∀ t ∈ texts, some (t.1, Value.str t.2) ∈ leavesIn [] messages := fun t ht =>
    htexts ▸ List.mem_map_of_mem ht
  have hpath : ∀ t ∈ texts, t.1 ≠ [] ∧ ∀ name ∈ t.1, '.' ∉ name.toList := fun t ht =>
    h.path (hleaf t ht)
  have hpaths : (texts.map Prod.fst).Nodup := by
    have hnodup := h.nodup_paths []
    rwa [leavesAt, htexts, map_pathOf_textsAt] at hnodup
  have hlength : (Entries.ofPairs (texts.map keyed)).length = texts.length ↔
      (texts.map fun t => keyOf t.1).Nodup := by
    rw [← hkeys, ← Entries.length_ofPairs_eq_iff, List.length_map]
  refine ⟨texts, _, htexts, hpaths, flatten_of_texts htexts, fun s hs t ht =>
    keyOf_eq_iff (hpath s hs).2 (hpath t ht).2, hlength, fun hgroups => ?_⟩
  have hfull : ∀ t ∈ texts, keyOf t.1 = ".".intercalate t.1 := fun t ht =>
    h.keyOf_top hgroups (hleaf t ht)
  have hnodup : ((texts.map keyed).map Prod.fst).Nodup := by
    have hinj : ∀ names ∈ texts.map Prod.fst, ∀ names' ∈ texts.map Prod.fst,
        keyOf names = keyOf names' → names = names' := by
      simp only [List.forall_mem_map]
      intro s hs t ht heq
      rw [hfull s hs, hfull t ht] at heq
      exact intercalate_point_inj (hpath s hs).1 (hpath t ht).1 (hpath s hs).2 (hpath t ht).2 heq
    have hkeysNodup := hpaths.map_on hinj
    rw [List.map_map] at hkeysNodup
    rw [hkeys]
    exact hkeysNodup
  rw [Entries.ofPairs_of_nodup hnodup]
  refine ⟨List.map_congr_left fun t ht => ?_, hnodup⟩
  rw [keyed, hfull t ht]

theorem flatten_distinct_nested :
    let messages : List (Value × Value) := [(.str "", .str "x"),
      (.str "a", .dict [(.str "", .dict [(.str "b", .str "y")]), (.str "b", .str "z")])]
    IsPlain (.dict messages) ∧
    ∃ flat, flatten "" messages = .ok flat ∧ (flat.map Prod.fst).Nodup ∧
      flat = [("", "x"), ("a..b", "y"), ("a.b", "z")] := by
  intro messages
  have hinner : IsPlain (.dict [(.str "b", .str "y")]) :=
    @IsPlain.group [("b", .str "y")] (by simp) (by simp) (by simp [IsPlain.text])
  have houter : IsPlain (.dict [(.str "", .dict [(.str "b", .str "y")]), (.str "b", .str "z")]) :=
    @IsPlain.group [("", .dict [(.str "b", .str "y")]), ("b", .str "z")] (by simp) (by simp)
      (by simp [IsPlain.text, hinner])
  have h : IsPlain (.dict messages) :=
    @IsPlain.group [("", .str "x"),
        ("a", .dict [(.str "", .dict [(.str "b", .str "y")]), (.str "b", .str "z")])]
      (by simp) (by simp) (by simp [IsPlain.text, houter])
  obtain ⟨texts, flat, htexts, -, hflat, -, -, hfull⟩ := flatten_distinct h
  obtain ⟨-, hnodup⟩ := hfull (by simp [messages])
  cases hflat
  exact ⟨h, _, rfl, hnodup, rfl⟩

/-- A text below the empty name is lost where another text has its key. -/
theorem flatten_nameless_group :
    let messages : List (Value × Value) :=
      [(.str "", .dict [(.str "a", .str "x")]), (.str "a", .str "y")]
    IsPlain (.dict messages) ∧
    leavesIn [] messages = [some (["", "a"], .str "x"), some (["a"], .str "y")] ∧
    flatten "" messages = .ok [("a", "y")] := by
  intro messages
  have hgroup : IsPlain (.dict [(.str "a", .str "x")]) :=
    @IsPlain.group [("a", .str "x")] (by simp) (by simp) (by simp [IsPlain.text])
  exact ⟨@IsPlain.group [("", .dict [(.str "a", .str "x")]), ("a", .str "y")] (by simp) (by simp)
    (by simp [IsPlain.text, hgroup]), rfl, rfl⟩

end MessageTree

end MessageCatalog
