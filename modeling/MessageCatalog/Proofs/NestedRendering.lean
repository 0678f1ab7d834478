import MessageCatalog.Proofs.Concatenation
import MessageCatalog.Proofs.OverlaidEntries
import MessageCatalog.Proofs.RenderingDepth

/-!
# Phrases that render others

A phrase that calls `t` with a quoted key has the text under this key in the place of the call. The
nested phrase is rendered in a scope of its own, the default context of the catalog: what is bound
for one rendering of the outer phrase is not seen in it. The parts are rendered in their order, and
the first failure is that of the whole.
-/
namespace MessageCatalog

def escapedKey (key : List Char) : List Char :=
  key.flatMap fun c => if c = '\\' ∨ c = '\'' then ['\\', c] else [c]

theorem Scan.splitQuoted_escapedKey (key rest : List Char) :
    splitQuoted '\'' (escapedKey key ++ '\'' :: rest) = some (key, rest) := by
  induction key with
  | nil => simp [escapedKey, splitQuoted]
  | cons c key ih =>
    have hcons : escapedKey (c :: key) =
        (if c = '\\' ∨ c = '\'' then ['\\', c] else [c]) ++ escapedKey key := List.flatMap_cons
    rw [hcons]
    split
    · next hc =>
      have hescape : escape? c = some c := by
        obtain rfl | rfl := hc <;> rfl
      simp [splitQuoted, hescape, ih]
    · next hc =>
      obtain ⟨hbackslash, hquote⟩ := not_or.1 hc
      simp [splitQuoted, hquote, ih]

/-- An interpolation that renders the text under a key. -/
def nestedText (key : String) : String :=
  "$\x7bt('" ++ String.ofList (escapedKey key.toList) ++ "')\x7d"

theorem reads_nestedCall {opener : Opener} {below : List Opener} {rest : List Char} {s : Assembly}
    (ho : opener ≠ .template) (hs : s.Awaits) (key : String) :
    ReadsTo (opener :: below)
      ("t".toList ++ '(' :: '\'' :: (escapedKey key.toList ++ '\'' :: ')' :: rest)) s
      (opener :: below) rest (s.deliver (.call "t" [.text key])) := by
  have hname : IsName "t" := by decide +kernel
  have hquoted : Scan.expressionLexeme? .call
      ('\'' :: (escapedKey key.toList ++ '\'' :: ')' :: rest)) =
        some ⟨.string, key.toList, ')' :: rest⟩ := by
    simp [Scan.expressionLexeme?, Scan.splitQuoted_escapedKey]
  refine .expression ho (Scan.expressionLexeme_call hname) (fun _ => hs _ rfl) fun p => ?_
  have hawaits := s.awaits_items (.call p "t") [] .opened
  have hkey : ReadsTo (.call :: opener :: below)
      ('\'' :: (escapedKey key.toList ++ '\'' :: ')' :: rest)) (s.push (.call p "t" [] .opened))
      (.call :: opener :: below) (')' :: rest) (s.push (.call p "t" [.text key] .item)) := by
    refine reads_leaf (e := .text key) (by simp) hawaits hquoted rfl rfl fun _ => ?_
    rw [String.ofList_toList]
    rfl
  exact hkey.trans (reads_closing (.call p "t") [.text key] .item)

theorem Phrase.parse_nestedText (key : String) :
    parse (nestedText key) = .ok [.call "t" [.text key]] := by
  have htext : (nestedText key).toList = '$' :: '\x7b' ::
      ("t".toList ++ '(' :: '\'' :: (escapedKey key.toList ++ '\'' :: ')' :: '\x7d' :: [])) := by
    simp [nestedText]
  refine parse_of_readsTo_text (by simp [nestedText]) ?_
  rw [htext]
  refine .lexeme (l := ⟨.expressionStart, ['$', '\x7b'], _⟩) rfl
    (fun _ => Assembly.AtText.step_start (.inl rfl) rfl) fun p => ?_
  have hcall : ReadsTo [.interpolation]
      ("t".toList ++ '(' :: '\'' :: (escapedKey key.toList ++ '\'' :: ')' :: '\x7d' :: []))
      (Assembly.start.push (.interpolation p none)) [.interpolation] ['\x7d']
      (Assembly.start.push (.interpolation p (some (.call "t" [.text key])))) :=
    reads_nestedCall (by simp) (Assembly.start.awaits_interpolation p) key
  exact hcall.trans (reads_expressionEnd p (.call "t" [.text key]))

namespace Phrase

variable {before after : String} {p q : Phrase}

theorem exists_parse_nested (hp : parse before = .ok p) (hq : parse after = .ok q) (key : String) :
    ∃ r, parse (before ++ nestedText key ++ after) = .ok r ∧
      r.SameText (p ++ [.call "t" [.text key]] ++ q) := by
  have hbegin : (nestedText key).toList.head? ≠ some '\x7b' := by simp [nestedText]
  have hend : (before ++ nestedText key).toList.getLast? = some '\x7d' := by
    have hconcat : (before ++ nestedText key).toList = (before ++ "$\x7bt('" ++
        String.ofList (escapedKey key.toList) ++ "')").toList ++ ['\x7d'] := by
      simp [nestedText]
    rw [hconcat, List.getLast?_concat]
  obtain ⟨first, hfirst, hsame⟩ :=
    exists_parse_append hp (parse_nestedText key) fun hseam => hbegin hseam.2
  obtain ⟨r, hr, hsame'⟩ := exists_parse_append hfirst hq fun hseam =>
    absurd (hend.symm.trans hseam.1) (by decide)
  exact ⟨r, hr, hsame'.trans (hsame.append (.refl q))⟩

end Phrase

namespace Catalog

variable {c : Catalog} {host : Host} {locals : Locals} {p q r : Phrase}

theorem plainJoined_nested (h : locals.value "t" = .function (.helper .render)) (depth : Nat)
    (key : String) : c.plainJoined host depth [.call "t" [.text key]] locals =
      some <$> c.plainText host depth (.str key) .null := by
  have hcallee : Expr.callee locals "t" = .ok (.helper .render) := by
    rw [Expr.callee, h]
  simp only [plainJoined, Phrase.joined, Phrase.evaluate, Expr.evaluateAll, Expr.evaluate, hcallee,
    Expr.text, call, plainText]
  simp [Value.joinText?_str]

theorem plainText_of_text {key text : String} {context : Value}
    (htext : c.texts.lookup key = some text) (hparse : Phrase.parse text = .ok r)
    (hlocals : c.localsWith context = .ok locals) (depth : Nat) :
    c.plainText host (depth + 1) (.str key) context =
      c.plainJoined host depth r locals >>= fun s => Eval.lift (written s) := by
  have hkey : c.textOf (.str key) = .ok (key, text) := by
    simp [textOf, Value.isKey, htext]
  have hparts : c.plainParts host (depth + 1) (.str key) context =
      r.evaluate (c.call host recordPlainly (c.plainParts host depth)) locals := by
    rw [plainParts, hkey, hlocals]
    change (Eval.lift ((Phrase.parse text).mapError .phrase) >>= fun phrase =>
      phrase.evaluate _ _) = _
    rw [hparse]
    rfl
  rw [plainText, hparts]
  exact Phrase.render_eq_joined r

theorem value_localsWith {name : String} {v context : Value}
    (hdefault : c.context.lookup name = some v)
    (hcontext : ∀ entries, context = .dict entries → .str name ∉ entries.map Prod.fst)
    (hlocals : c.localsWith context = .ok locals) : locals.value name = v := by
  unfold localsWith at hlocals
  split at hlocals
  · cases hlocals
    rw [Locals.value, hdefault, Option.getD_some]
  · split at hlocals
    · cases hlocals
      rw [Locals.value, Entries.lookup_overlay,
        Locals.lookup_ofEntries_of_not_mem (hcontext _ rfl), hdefault]
      rfl
    · contradiction

theorem follows_plainText (host : Host) {key inner before after : String} {context : Value}
    (htext : c.texts.lookup key = some (before ++ nestedText inner ++ after))
    (hp : Phrase.parse before = .ok p) (hq : Phrase.parse after = .ok q)
    (hlocals : c.localsWith context = .ok locals)
    (ht : locals.value "t" = .function (.helper .render)) (depth : Nat) :
    ∃ both whole, Host.Follows (Host.outcome (c.plainJoined host depth p locals) [])
        (Host.asPart (Host.outcome (c.plainText host depth (.str inner) .null) [])) both ∧
      Host.Follows both (Host.outcome (c.plainJoined host depth q locals) []) whole ∧
      Host.outcome (c.plainText host (depth + 1) (.str key) context) [] = Host.shown whole := by
  obtain ⟨r, hr, hsame⟩ := Phrase.exists_parse_nested hp hq inner
  have hwhole : c.plainJoined host depth r locals = _ :=
    (hsame _ _ _).trans (Phrase.joined_append _ _)
  have hboth : c.plainJoined host depth (p ++ [.call "t" [.text inner]]) locals = _ :=
    Phrase.joined_append _ _
  refine ⟨Host.outcome (c.plainJoined host depth (p ++ [.call "t" [.text inner]]) locals) [],
    Host.outcome (c.plainJoined host depth r locals) [], ?_, ?_, ?_⟩
  · rw [hboth, ← Host.outcome_map, ← plainJoined_nested ht]
    exact Host.follows_outcome _ (c.ignoresCalls_plainJoined host depth _ locals)
  · rw [hwhole]
    exact Host.follows_outcome _ (c.ignoresCalls_plainJoined host depth q locals)
  · rw [plainText_of_text htext hr hlocals, Host.outcome_written]

end Catalog

namespace Session

/-- Where a call of `t` with a quoted key stands between two phrases, the three are rendered one
after the other, whatever the memo keeps. The two have the names of this rendering, and the nested
text has only the default ones, as if it were rendered by itself. The first failure of the three is
that of the whole; a value without text in a part of the outer two is one only after these. -/
theorem render_nested {host : Host} {s : Session} (hs : s.Reached host) {id : String} {shelf : Shelf}
    (hshelf : s.shelves.lookup id = some shelf) {key inner before after : String}
    (htext : shelf.catalog.texts.lookup key = some (before ++ nestedText inner ++ after))
    {p q : Phrase} (hp : Phrase.parse before = .ok p) (hq : Phrase.parse after = .ok q)
    {context : Value} {locals : Locals} (hlocals : shelf.catalog.localsWith context = .ok locals)
    (hdefault : shelf.catalog.context.lookup "t" = some (.function (.helper .render)))
    (hcontext : ∀ entries, context = .dict entries → .str "t" ∉ entries.map Prod.fst)
    {first last : Except RenderError (Option String) × List HostCall}
    {nested : Except RenderError String × List HostCall}
    (hfirst : shelf.catalog.Evaluates host p locals first)
    (hnested : shelf.catalog.Renders host (.str inner) .null nested)
    (hlast : shelf.catalog.Evaluates host q locals last) :
    ∃ both whole, Host.Follows first (Host.asPart nested) both ∧ Host.Follows both last whole ∧
      ∃ least, ∀ depth, least ≤ depth →
        s.Answers host depth id (.render (.str key) context) (Host.shown whole) ∧
        s.Answers host depth id (.render (.str inner) .null) nested := by
  have ht := Catalog.value_localsWith hdefault hcontext hlocals
  obtain ⟨least, hfirst⟩ := hfirst.eventually
  obtain ⟨least', hnested⟩ := hnested.eventually
  obtain ⟨least'', hlast⟩ := hlast.eventually
  have hfollows : ∀ depth, least + least' + least'' ≤ depth →
      ∃ both whole, Host.Follows first (Host.asPart nested) both ∧ Host.Follows both last whole ∧
        Host.outcome (shelf.catalog.plainText host (depth + 1) (.str key) context) [] =
          Host.shown whole := by
    intro depth hdepth
    have h := Catalog.follows_plainText host htext hp hq hlocals ht depth
    rwa [hfirst depth (by omega), hnested depth (by omega), hlast depth (by omega)] at h
  obtain ⟨both, whole, hboth, hwhole, -⟩ := hfollows _ (Nat.le_refl _)
  refine ⟨both, whole, hboth, hwhole, least + least' + least'' + 1, fun depth hdepth => ?_⟩
  obtain ⟨depth, rfl⟩ : ∃ depth', depth = depth' + 1 := ⟨depth - 1, by omega⟩
  obtain ⟨both', whole', hboth', hwhole', hshown⟩ := hfollows depth (by omega)
  cases hboth.unique hboth'
  cases hwhole.unique hwhole'
  have houter := answers_render host hs.sound hshelf (depth + 1) (.str key) context
  have hinner := answers_render host hs.sound hshelf (depth + 1) (.str inner) .null
  rw [hshown] at houter
  rw [hnested _ (by omega)] at hinner
  exact ⟨houter, hinner⟩

theorem render_nested_scope :
    let outer := "Hi $\x7bx\x7d: " ++ nestedText "it's" ++ "!"
    let messages := [(.str "m", .str outer), (.str "it's", .str "by $\x7bx\x7d.")]
    let s := (Session.empty.apply .empty renderDepth
      (.new "c" "en" messages [(.str "x", .str "all")] "memo" none none)).2
    ∃ least, ∀ depth, least ≤ depth →
      s.Answers .empty depth "c" (.render (.str "m") (.dict [(.str "x", .str "Ann")]))
        (.ok "Hi Ann: by all.!", []) ∧
      s.Answers .empty depth "c" (.render (.str "it's") .null) (.ok "by all.", []) := by
  intro outer messages s
  let catalog : Catalog := { Catalog.new "en" [(.str "x", .str "all")] with
    texts := [("m", outer), ("it's", "by $\x7bx\x7d.")] }
  let locals : Locals := Entries.put "x" (.str "Ann") catalog.context
  have hs : s.Reached .empty := .apply _ _ .empty
  have hshelf : s.shelves.lookup "c" = some ⟨catalog, "memo"⟩ := rfl
  have htext : catalog.texts.lookup "m" =
      some ("Hi $\x7bx\x7d: " ++ nestedText "it's" ++ "!") := rfl
  have hbefore : Phrase.parse "Hi $\x7bx\x7d: " =
      .ok [.text "Hi ", .identifier "x", .text ": "] := by
    have he : Scan.Emits (.start "Hi $\x7bx\x7d: ")
        [⟨.string, "Hi ", 0⟩, ⟨.expressionStart, "$\x7b", 3⟩, ⟨.identifier, "x", 5⟩,
          ⟨.expressionEnd, "\x7d", 6⟩, ⟨.string, ": ", 7⟩]
        ⟨[], 9, []⟩ := by decide +kernel
    exact Phrase.parse_of_emits he rfl (by simp)
  have hafter : Phrase.parse "!" = .ok [.text "!"] := by
    have he : Scan.Emits (.start "!") [⟨.string, "!", 0⟩] ⟨[], 1, []⟩ := by decide +kernel
    exact Phrase.parse_of_emits he rfl (by simp)
  have hinner : Phrase.parse "by $\x7bx\x7d." = .ok [.text "by ", .identifier "x", .text "."] := by
    have he : Scan.Emits (.start "by $\x7bx\x7d.")
        [⟨.string, "by ", 0⟩, ⟨.expressionStart, "$\x7b", 3⟩, ⟨.identifier, "x", 5⟩,
          ⟨.expressionEnd, "\x7d", 6⟩, ⟨.string, ".", 7⟩]
        ⟨[], 8, []⟩ := by decide +kernel
    exact Phrase.parse_of_emits he rfl (by simp)
  have hlocals : catalog.localsWith (.dict [(.str "x", .str "Ann")]) = .ok locals := rfl
  have hnested : catalog.Renders .empty (.str "it's") .null (.ok "by all.", []) := by
    have hrender : catalog.plainText .empty 1 (.str "it's") .null =
        catalog.plainJoined .empty 0 [.text "by ", .identifier "x", .text "."] catalog.context >>=
          fun s => Eval.lift (written s) :=
      Catalog.plainText_of_text rfl hinner rfl 0
    exact ⟨by simp, 1, by simp only [hrender]; rfl⟩
  have hfirst : catalog.Evaluates .empty [.text "Hi ", .identifier "x", .text ": "] locals
      (.ok (some "Hi Ann: "), []) := ⟨by simp, 0, rfl⟩
  have hlast : catalog.Evaluates .empty [.text "!"] locals (.ok (some "!"), []) :=
    ⟨by simp, 0, rfl⟩
  obtain ⟨both, whole, hboth, hwhole, hanswers⟩ := render_nested hs hshelf htext hbefore hafter
    hlocals rfl (by simp) hfirst hnested hlast
  cases hboth.ok _ _ rfl rfl
  cases hwhole.ok _ _ rfl rfl
  exact hanswers

end Session

end MessageCatalog
