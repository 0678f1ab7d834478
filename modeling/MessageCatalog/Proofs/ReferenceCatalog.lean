import Mathlib.Data.List.Sort
import MessageCatalog.Catalog.Reference
import MessageCatalog.Proofs.OpenConstructs
import MessageCatalog.Proofs.MentionedNames
import MessageCatalog.Proofs.OverlaidEntries
import MessageCatalog.Proofs.PlainRendering

/-!
# Catalogs and their references

A catalog with a memo and one without mirror each other if they give the same text for each key and
the same default value for each name; how their entries are kept does not matter. They render every
phrase alike, as the one parses what the other may remember, and each change is made to both. So a
session that has all its memos sound answers every step as one without memos does.
-/
namespace MessageCatalog

namespace Entries

variable {α : Type} {es fs : List (String × α)}

theorem mem_keys_iff {key : String} : key ∈ es.map Prod.fst ↔ (es.lookup key).isSome = true := by
  simp only [List.lookup_isSome_iff, List.mem_map, beq_iff_eq]
  exact exists_congr fun e => and_congr_right fun _ => eq_comm

theorem lookup_of_mem (h : (es.map Prod.fst).Nodup) {e : String × α} (he : e ∈ es) :
    es.lookup e.1 = some e.2 := by
  induction es with
  | nil => cases he
  | cons d es ih =>
    obtain ⟨hd, h⟩ := List.nodup_cons.1 h
    rcases List.mem_cons.1 he with rfl | he
    · exact List.lookup_cons_self
    · have hne : (e.1 == d.1) = false := by
        rw [beq_eq_false_iff_ne]
        rintro heq
        exact hd (heq ▸ List.mem_map_of_mem he)
      rw [← ih h he, List.lookup_cons, hne]

theorem sorted_eq {as bs : List String} (has : as.Nodup) (hbs : bs.Nodup)
    (h : ∀ key, key ∈ as ↔ key ∈ bs) :
    (as.mergeSort fun a b => a ≤ b) = bs.mergeSort fun a b => a ≤ b := by
  have hperm : as.Perm bs := (List.perm_ext_iff_of_nodup has hbs).2 h
  refine List.Perm.eq_of_pairwise' (List.pairwise_mergeSort' (· ≤ ·) as)
    (List.pairwise_mergeSort' (· ≤ ·) bs) ?_
  exact (List.mergeSort_perm _ _).trans (hperm.trans (List.mergeSort_perm _ _).symm)

theorem keys_sortByKey (es : List (String × α)) :
    (Session.sortByKey es).map Prod.fst = (es.map Prod.fst).mergeSort fun a b => a ≤ b :=
  List.map_mergeSort fun _ _ _ _ => rfl

theorem keysOf_eq (h : ∀ key, fs.lookup key = es.lookup key) (hes : (es.map Prod.fst).Nodup) :
    PlainCatalog.keysOf fs = (es.map Prod.fst).mergeSort fun a b => a ≤ b := by
  refine sorted_eq ?_ hes fun key => ?_
  · rw [← keys_ofPairs]
    exact nodup_overlay (by simp) fs
  · rw [List.mem_eraseDups, mem_keys_iff, mem_keys_iff, h]

theorem listing_eq (h : ∀ key, fs.lookup key = es.lookup key) (hes : (es.map Prod.fst).Nodup) :
    PlainCatalog.listing fs = Session.sortByKey es := by
  rw [PlainCatalog.listing, keysOf_eq h hes, ← keys_sortByKey, List.filterMap_map]
  have hself : ∀ e ∈ Session.sortByKey es,
      ((fun key => (fs.lookup key).map (key, ·)) ∘ Prod.fst) e = some e := by
    intro e he
    have hlookup := lookup_of_mem hes ((List.mergeSort_perm _ _).mem_iff.1 he)
    rw [Function.comp_apply, h, hlookup, Option.map_some]
  rw [List.filterMap_congr hself, List.filterMap_some]

end Entries

namespace PlainCatalog

theorem bind_eq (context : List (String × Value)) (entries : List (Value × Value)) :
    bind context entries = (Locals.ofEntries entries).reverse ++ context := by
  induction entries generalizing context with
  | nil => rfl
  | cons e entries ih =>
    obtain ⟨key, v⟩ := e
    cases key with
    | str name =>
      have hcons : Locals.ofEntries ((.str name, v) :: entries) =
          (name, v) :: Locals.ofEntries entries := rfl
      rw [bind, ih, hcons, List.reverse_cons, List.append_assoc]
      rfl
    | _ => exact ih context

theorem lookup_bind {context : List (String × Value)} {locals : Locals}
    (h : ∀ name, context.lookup name = locals.lookup name) (entries : List (Value × Value))
    (name : String) : (bind context entries).lookup name =
      (Entries.overlay locals (Locals.ofEntries entries)).lookup name := by
  rw [bind_eq, List.lookup_append, Entries.lookup_overlay, h]

theorem joined_eq (values : List Value) : joined values = written (Value.joinText? values) := by
  unfold joined
  cases Value.joinText? values <;> rfl

end PlainCatalog

namespace Catalog

/-- A catalog without a memo that gives the same texts and default values. -/
structure Mirrors (c : Catalog) (r : PlainCatalog) : Prop where
  locale : r.locale = c.locale
  texts : ∀ key, r.texts.lookup key = c.texts.lookup key
  context : ∀ name, r.context.lookup name = c.context.lookup name
  textKeys : (c.texts.map Prod.fst).Nodup
  contextKeys : (c.context.map Prod.fst).Nodup

namespace Mirrors

variable {c : Catalog} {r : PlainCatalog}

theorem new (locale : String) (context : List (Value × Value)) :
    (Catalog.new locale context).Mirrors (.new locale context) where
  locale := rfl
  texts _ := rfl
  context := by
    have hhelpers : helpers = Entries.overlay [] (Locals.ofEntries PlainCatalog.helpers) := rfl
    refine PlainCatalog.lookup_bind (fun name => ?_) context
    rw [hhelpers]
    exact PlainCatalog.lookup_bind (fun _ => rfl) _ name
  textKeys := List.nodup_nil
  contextKeys := Entries.nodup_overlay (by decide) _

theorem extendContext (h : c.Mirrors r) (context : List (Value × Value)) :
    (c.extendContext context).Mirrors (r.extendContext context) where
  locale := h.locale
  texts := h.texts
  context := PlainCatalog.lookup_bind h.context context
  textKeys := h.textKeys
  contextKeys := Entries.nodup_overlay h.contextKeys _

theorem extendMessages (h : c.Mirrors r) (memo : ParseMemo) (messages : List (Value × Value)) :
    (∃ e, c.extendMessages memo messages = .error e ∧ r.extendMessages messages = .error e) ∨
      ∃ c' memo' r', c.extendMessages memo messages = .ok (c', memo') ∧
        r.extendMessages messages = .ok r' ∧ c'.Mirrors r' := by
  unfold Catalog.extendMessages PlainCatalog.extendMessages
  cases MessageTree.flatten "" messages with
  | error e => exact .inl ⟨e, rfl, rfl⟩
  | ok flat =>
    refine .inr ⟨_, _, _, rfl, rfl, h.locale, fun key => ?_, h.context,
      Entries.nodup_overlay h.textKeys flat, h.contextKeys⟩
    rw [List.lookup_append, Entries.lookup_overlay, h.texts]

theorem category (h : c.Mirrors r) (v : Value) (ordinal : Bool) :
    r.category v ordinal = (c.pluralCategory v ordinal).map (·.name) := by
  unfold PlainCatalog.category pluralCategory
  rw [h.locale]
  cases PluralRules.builtIn.category? c.locale v ordinal <;> rfl

theorem choice (h : c.Mirrors r) (v type : Value) : r.choice v type = c.selector v type := by
  unfold PlainCatalog.choice
  split
  · exact h.category v false
  · exact h.category v true
  · next hplural hordinal =>
    rw [selector]
    · cases v.text? <;> rfl
    · exact hplural
    · exact hordinal

theorem select (h : c.Mirrors r) (v type phrases : Value) :
    r.select v type phrases = c.selectPhrase v type phrases := by
  unfold PlainCatalog.select selectPhrase
  rw [h.choice]
  cases c.selector v type with
  | error e => rfl
  | ok name =>
    cases phrases with
    | dict entries =>
      change PlainCatalog.pick name entries = _
      unfold PlainCatalog.pick phraseNamed?
      split <;> simp [*]
    | _ => rfl

theorem textUnder (h : c.Mirrors r) (key : Value) :
    r.textUnder key = (c.textOf key).map Prod.snd := by
  unfold PlainCatalog.textUnder
  split
  · next name =>
    have hkey : (Value.str name).isKey = true := rfl
    rw [textOf, hkey, h.texts, h.locale]
    cases c.texts.lookup name <;> rfl
  · next hstr =>
    rw [h.locale, textOf]
    · cases key.isKey with
      | false => rfl
      | true => cases key.display? <;> rfl
    · exact hstr

theorem scope (h : c.Mirrors r) (context : Value) :
    (∃ e, c.localsWith context = .error e ∧ r.scope context = .error e) ∨
      ∃ locals scope, c.localsWith context = .ok locals ∧ r.scope context = .ok scope ∧
        ∀ name, scope.lookup name = locals.lookup name := by
  unfold PlainCatalog.scope
  split
  · next entries =>
    refine .inr ?_
    cases entries with
    | nil => exact ⟨_, _, rfl, rfl, h.context⟩
    | cons e entries => exact ⟨_, _, rfl, rfl, PlainCatalog.lookup_bind h.context _⟩
  · next hdict =>
    unfold localsWith
    cases context.isTruthy with
    | false => exact .inr ⟨_, _, rfl, rfl, h.context⟩
    | true =>
      refine .inl ⟨.badContext, ?_, rfl⟩
      split
      · contradiction
      · split
        · next entries => exact (hdict entries rfl).elim
        · rfl

theorem call (h : c.Mirrors r) (host : Host)
    {render : Value → Value → Eval (List HostCall) (List Value)} (f : Callable)
    (arguments : List Value) :
    c.call host recordPlainly render f arguments = r.call host render f arguments := by
  have htext (key context : Value) :
      (do return Value.str (← Value.writeAll (← render key context))) =
        do return .str (← .lift (PlainCatalog.joined (← render key context))) := by
    simp only [Value.writeAll, PlainCatalog.joined_eq]
  have hcategory (v : Value) (ordinal : Bool) :
      (.lift ((c.pluralCategory v ordinal).map fun k => .str k.name) : Eval (List HostCall) Value) =
        do return .str (← .lift (r.category v ordinal)) := by
    rw [h.category]
    cases c.pluralCategory v ordinal <;> rfl
  have hselect (v type phrases : Value) :
      (.lift ((c.selectPhrase v type phrases).map .str) : Eval (List HostCall) Value) =
        do return .str (← .lift (r.select v type phrases)) := by
    rw [h.select]
    cases c.selectPhrase v type phrases <;> rfl
  cases f with
  | host f =>
    funext calls
    rw [PlainCatalog.call]
    change (modify (· ++ [⟨f, arguments⟩]) >>= fun _ =>
      Eval.lift ((host.run f arguments).mapError .host) : Eval (List HostCall) Value) calls = _
    cases host.run f arguments <;> rfl
  | helper helper =>
    change _ = r.help render helper arguments
    cases helper with
    | render =>
      rcases arguments with _ | ⟨key, _ | ⟨context, _ | ⟨v, rest⟩⟩⟩
      · rfl
      · exact htext key .null
      · exact htext key context
      · rfl
    | renderParts =>
      rcases arguments with _ | ⟨key, _ | ⟨context, _ | ⟨v, rest⟩⟩⟩ <;> rfl
    | selectPhrase =>
      rcases arguments with _ | ⟨v, _ | ⟨type, _ | ⟨phrases, _ | ⟨w, rest⟩⟩⟩⟩
      · rfl
      · rfl
      · rfl
      · exact hselect v type phrases
      · rfl
    | pluralRule =>
      rcases arguments with _ | ⟨v, _ | ⟨w, rest⟩⟩
      · rfl
      · exact hcategory v false
      · rfl
    | ordinalRule =>
      rcases arguments with _ | ⟨v, _ | ⟨w, rest⟩⟩
      · rfl
      · exact hcategory v true
      · rfl

theorem parts (h : c.Mirrors r) (host : Host) (depth : Nat) (key context : Value) :
    c.plainParts host depth key context = r.parts host depth key context := by
  induction depth generalizing key context with
  | zero => rfl
  | succ depth ih =>
    have hcall : c.call host recordPlainly (c.plainParts host depth) =
        r.call host (r.parts host depth) := by
      rw [funext₂ ih]
      exact funext₂ fun f arguments => h.call host f arguments
    rw [plainParts, PlainCatalog.parts, h.textUnder, hcall]
    obtain ⟨e, hlocals, hscope⟩ | ⟨locals, scope, hlocals, hscope, hsame⟩ := h.scope context
    · rw [hlocals, hscope]
      cases c.textOf key <;> rfl
    · rw [hlocals, hscope]
      have hphrase (p : Phrase) : p.evaluate (r.call host (r.parts host depth)) locals =
          p.evaluate (r.call host (r.parts host depth)) scope :=
        (evaluate_mentioned fun name _ => by rw [Locals.value, Locals.value, hsame]).1 _
      cases c.textOf key with
      | error e => rfl
      | ok found =>
        obtain ⟨name, text⟩ := found
        simp [Eval.lift, Except.map, hphrase]

theorem text (h : c.Mirrors r) (host : Host) (depth : Nat) (key context : Value) :
    c.plainText host depth key context = r.text host depth key context := by
  simp only [plainText, PlainCatalog.text, h.parts, Value.writeAll, PlainCatalog.joined_eq]

end Mirrors

end Catalog

namespace Session

variable {s : Session} {p : PlainSession} {host : Host} {depth : Nat}

def ShelvesMirror (shelves : List (String × Shelf)) (catalogs : String → Option PlainCatalog) :
    Prop :=
  ∀ id, Option.Rel Catalog.Mirrors ((shelves.lookup id).map Shelf.catalog) (catalogs id)

/-- A session without memos that mirrors one with sound memos, after the same calls. -/
structure Mirrors (s : Session) (p : PlainSession) : Prop where
  sound : s.Sound
  calls : p.calls = s.calls
  catalogs : ShelvesMirror s.shelves p.catalogs

theorem ShelvesMirror.put (h : ShelvesMirror s.shelves p.catalogs) {shelf : Shelf}
    {r : PlainCatalog} (hr : shelf.catalog.Mirrors r) (id : String) :
    ShelvesMirror (Entries.put id shelf s.shelves) (p.put id (some r)).catalogs := by
  intro other
  rw [Entries.lookup_put, PlainSession.put]
  by_cases ho : other = id
  · simp only [ho, beq_self_eq_true, if_true, Option.map_some]
    exact .some hr
  · simp only [beq_iff_eq, ho, if_false]
    exact h other

theorem ShelvesMirror.remove (h : ShelvesMirror s.shelves p.catalogs) (id : String) :
    ShelvesMirror (Entries.remove id s.shelves) (p.put id none).catalogs := by
  intro other
  rw [PlainSession.put]
  by_cases ho : other = id
  · rw [ho, Entries.lookup_remove_self]
    simp only [if_true, Option.map_none]
    exact .none
  · rw [Entries.lookup_remove_of_ne ho]
    simp only [ho, if_false]
    exact h other

structure Agrees (step : SessionStep) (a : Except SessionError SessionAnswer × Session)
    (b : Option (Except SessionError SessionAnswer) × PlainSession) : Prop where
  answer : b.1 = if step.isAboutMemo then none else some a.1
  calls : b.2.calls = a.2.calls
  catalogs : ShelvesMirror a.2.shelves b.2.catalogs

theorem ofText_eq (r : Except RenderError String) :
    PlainSession.ofText r = some (textAnswer r) := by
  cases r <;> rfl

namespace Mirrors

theorem finish {α : Type} (h : s.Mirrors p) {step : SessionStep} (hstep : step.isAboutMemo = false)
    (memoName : String) (answer : α → SessionAnswer) {x : EStateM.Result RenderError RenderState α}
    {y : EStateM.Result RenderError (List HostCall) α} (ha : Agree Tracks x y) :
    Agrees step (s.finish memoName answer x) (p.finish answer y) := by
  cases ha with
  | ok a ht => exact ⟨by rw [hstep]; rfl, ht.2.symm, h.catalogs⟩
  | error e ht => exact ⟨by rw [hstep]; rfl, ht.2.symm, h.catalogs⟩

theorem act (h : s.Mirrors p) {shelf : Shelf} {r : PlainCatalog} (hr : shelf.catalog.Mirrors r)
    (id : String) (action : CatalogAction) :
    Agrees (.act id action) (s.act host depth id shelf action) (p.act host depth id r action) := by
  cases action with
  | extendMessages messages =>
    unfold Session.act PlainSession.act
    obtain ⟨e, hextend, hextend'⟩ | ⟨c, memo, r', hextend, hextend', hr'⟩ :=
      hr.extendMessages (s.memoNamed shelf.memoName) messages
    · simp only [hextend, hextend']
      exact ⟨rfl, h.calls, h.catalogs⟩
    · simp only [hextend, hextend']
      exact ⟨rfl, h.calls, h.catalogs.put hr' id⟩
  | extendContext context => exact ⟨rfl, h.calls, h.catalogs.put (hr.extendContext context) id⟩
  | has key =>
    refine ⟨?_, h.calls, h.catalogs⟩
    rw [PlainSession.act, hr.texts]
    rfl
  | isMemoized key => exact ⟨rfl, h.calls, h.catalogs⟩
  | keys =>
    refine ⟨?_, h.calls, h.catalogs⟩
    rw [PlainSession.act, Entries.keysOf_eq hr.texts hr.textKeys]
    rfl
  | texts =>
    refine ⟨?_, h.calls, h.catalogs⟩
    rw [PlainSession.act, Entries.listing_eq hr.texts hr.textKeys]
    rfl
  | context =>
    refine ⟨?_, h.calls, h.catalogs⟩
    rw [PlainSession.act, Entries.listing_eq hr.context hr.contextKeys]
    rfl
  | render key context =>
    have hrender := shelf.catalog.render_simulates host depth key context _ _ (h.sound.tracks shelf)
    rw [hr.text, ← h.calls] at hrender
    exact h.finish rfl shelf.memoName .text hrender
  | renderParts key context =>
    have hrender :=
      shelf.catalog.renderParts_simulates host depth key context _ _ (h.sound.tracks shelf)
    rw [hr.parts, ← h.calls] at hrender
    exact h.finish rfl shelf.memoName .parts hrender
  | category v ordinal =>
    refine ⟨?_, h.calls, h.catalogs⟩
    simp [PlainSession.act, Session.act, hr.category, ofText_eq, SessionStep.isAboutMemo]
  | select v type phrases =>
    refine ⟨?_, h.calls, h.catalogs⟩
    simp [PlainSession.act, Session.act, hr.select, ofText_eq, SessionStep.isAboutMemo]

theorem apply (h : s.Mirrors p) (step : SessionStep) :
    Agrees step (s.apply host depth step) (p.apply host depth step) := by
  cases step with
  | new id locale messages context memoName environment flag =>
    rw [Session.apply, PlainSession.apply]
    obtain ⟨e, hextend, hextend'⟩ | ⟨c, memo, r', hextend, hextend', hr'⟩ :=
      (Catalog.Mirrors.new locale context).extendMessages
        ((s.memos.lookup memoName).getD (.new environment flag)) messages
    · simp only [hextend, hextend']
      exact ⟨rfl, h.calls, h.catalogs.remove id⟩
    · simp only [hextend, hextend']
      exact ⟨rfl, h.calls, h.catalogs.put hr' id⟩
  | act id action =>
    rw [Session.apply, PlainSession.apply]
    have hid := h.catalogs id
    generalize p.catalogs id = known at hid
    cases hshelf : s.shelves.lookup id with
    | none =>
      rw [hshelf] at hid
      cases hid
      exact ⟨rfl, h.calls, h.catalogs⟩
    | some shelf =>
      rw [hshelf] at hid
      cases hid with
      | some hr => exact h.act hr id action
  | memo name step =>
    rw [Session.apply]
    cases s.memos.lookup name with
    | none => exact ⟨rfl, h.calls, h.catalogs⟩
    | some memo => exact ⟨rfl, h.calls, h.catalogs⟩

theorem next (h : s.Mirrors p) (step : SessionStep) :
    (s.apply host depth step).2.Mirrors (p.apply host depth step).2 :=
  ⟨sound_apply h.sound step, (h.apply step).calls, (h.apply step).catalogs⟩

end Mirrors

theorem mirrors_empty : Mirrors .empty .empty := ⟨sound_empty, rfl, fun _ => .none⟩

/-- What is seen of a step: its answer, unless it is about a memo, and the calls up to then. -/
def seen (step : SessionStep) (result : Except SessionError SessionAnswer × Session) :
    Option (Except SessionError SessionAnswer) × List HostCall :=
  (if step.isAboutMemo then none else some result.1, result.2.calls)

theorem run_mirrors (h : s.Mirrors p) (steps : List SessionStep) :
    p.run host depth steps = List.zipWith seen steps (s.run host depth steps) := by
  induction steps generalizing s p with
  | nil => rfl
  | cons step steps ih =>
    have hstep : Agrees step (s.apply host depth step) (p.apply host depth step) := h.apply step
    rw [PlainSession.run, run, List.zipWith_cons_cons, ← ih (h.next step), seen, ← hstep.answer,
      ← hstep.calls]

end Session

theorem PlainCatalog.text_of_parse {r : PlainCatalog} {host : Host} {key text : String}
    {context : Value} {p : Phrase} {locals : Locals} (htext : r.texts.lookup key = some text)
    (hparse : Phrase.parse text = .ok p) (hscope : r.scope context = .ok locals) (depth : Nat) :
    r.text host (depth + 1) (.str key) context =
      p.evaluate (r.call host (r.parts host depth)) locals >>= fun values =>
        .lift (joined values) := by
  have hkey : r.textUnder (.str key) = .ok text := by simp [textUnder, htext]
  have hread : (Phrase.parse text).mapError .phrase = (.ok p : Except RenderError Phrase) := by
    rw [hparse]
    rfl
  simp [PlainCatalog.text, parts, hkey, hread, hscope, Eval.lift]

theorem PlainSession.run_render (p : PlainSession) {host : Host} {depth : Nat} (id : String)
    {s : String} {r : PlainCatalog} {key context : Value} {calls : List HostCall}
    (hr : p.catalogs id = some r) (h : r.text host depth key context p.calls = .ok s calls)
    (steps : List SessionStep) :
    p.run host depth (.act id (.render key context) :: steps) =
      (some (.ok (.text s)), calls) :: PlainSession.run host depth ⟨p.catalogs, calls⟩ steps := by
  rw [run, apply, hr]
  simp only [act, finish, h]

/-- Sessions with memos answer as those without do, and call the same functions of the host by then,
whatever the memos are, which catalogs share them and what is done to them in between. -/
theorem run_agrees (host : Host) (depth : Nat) (steps : List SessionStep) :
    PlainSession.empty.run host depth steps =
      List.zipWith Session.seen steps (Session.empty.run host depth steps) :=
  Session.run_mirrors Session.mirrors_empty steps

/-- Two catalogs that share a memo have different texts under one key. What is bound for one
rendering hides the default value for this rendering alone. -/
theorem run_agrees_context :
    let steps : List SessionStep := [
      .new "a" "en" [(.str "m", .str "Hi $\x7bx\x7d")] [(.str "x", .str "all")] "memo" none none,
      .new "b" "en" [(.str "m", .str "Bye $\x7bx\x7d")] [] "memo" none none,
      .act "a" (.render (.str "m") (.dict [(.str "x", .str "Ann")])),
      .act "b" (.render (.str "m") (.dict [(.str "x", .str "Bob")])),
      .act "a" (.render (.str "m") .null)]
    List.zipWith Session.seen steps (Session.empty.run .empty renderDepth steps) =
      [(some (.ok .done), []), (some (.ok .done), []), (some (.ok (.text "Hi Ann")), []),
        (some (.ok (.text "Bye Bob")), []), (some (.ok (.text "Hi all")), [])] := by
  intro steps
  have hhi : Phrase.parse "Hi $\x7bx\x7d" = .ok [.text "Hi ", .identifier "x"] := by
    have he : Scan.Emits (.start "Hi $\x7bx\x7d")
        [⟨.string, "Hi ", 0⟩, ⟨.expressionStart, "$\x7b", 3⟩, ⟨.identifier, "x", 5⟩,
          ⟨.expressionEnd, "\x7d", 6⟩] ⟨[], 7, []⟩ := by decide +kernel
    exact Phrase.parse_of_emits he rfl (by simp)
  have hbye : Phrase.parse "Bye $\x7bx\x7d" = .ok [.text "Bye ", .identifier "x"] := by
    have he : Scan.Emits (.start "Bye $\x7bx\x7d")
        [⟨.string, "Bye ", 0⟩, ⟨.expressionStart, "$\x7b", 4⟩, ⟨.identifier, "x", 6⟩,
          ⟨.expressionEnd, "\x7d", 7⟩] ⟨[], 8, []⟩ := by decide +kernel
    exact Phrase.parse_of_emits he rfl (by simp)
  let a : PlainCatalog := { PlainCatalog.new "en" [(.str "x", .str "all")] with
    texts := [("m", "Hi $\x7bx\x7d")] }
  let b : PlainCatalog := { PlainCatalog.new "en" [] with texts := [("m", "Bye $\x7bx\x7d")] }
  let p : PlainSession := (PlainSession.empty.put "a" (some a)).put "b" (some b)
  have hann : a.text .empty renderDepth (.str "m") (.dict [(.str "x", .str "Ann")]) [] =
      .ok "Hi Ann" [] := by
    rw [renderDepth, PlainCatalog.text_of_parse rfl hhi rfl]
    rfl
  have hbob : b.text .empty renderDepth (.str "m") (.dict [(.str "x", .str "Bob")]) [] =
      .ok "Bye Bob" [] := by
    rw [renderDepth, PlainCatalog.text_of_parse rfl hbye rfl]
    rfl
  have hall : a.text .empty renderDepth (.str "m") .null [] = .ok "Hi all" [] := by
    rw [renderDepth, PlainCatalog.text_of_parse rfl hhi rfl]
    rfl
  have hnew : PlainSession.empty.run .empty renderDepth steps =
      (some (.ok .done), []) :: (some (.ok .done), []) :: p.run .empty renderDepth (steps.drop 2) :=
    rfl
  have hfirst := p.run_render "a" rfl hann (steps.drop 3)
  have hsecond := p.run_render "b" rfl hbob (steps.drop 4)
  have hthird := p.run_render "a" rfl hall []
  rw [← run_agrees, hnew]
  exact congrArg _ (congrArg _ (hfirst.trans (congrArg _ (hsecond.trans (congrArg _ hthird)))))

end MessageCatalog
