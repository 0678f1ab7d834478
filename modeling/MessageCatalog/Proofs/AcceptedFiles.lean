import Mathlib.Data.List.TakeWhile
import MessageCatalog.PhraseFile.Read
import MessageCatalog.Proofs.ExtendedMessages
import MessageCatalog.Proofs.Numerals
import MessageCatalog.Proofs.OverlaidEntries

/-!
# Accepted phrase files

Each field of a phrase file has a check of its own, and a dictionary is accepted just if all checks
pass and no key is left over. The check of the messages flattens them, so when a catalog is made of
an accepted file, flattening its messages again cannot fail.
-/
namespace MessageCatalog

namespace Text

theorem trimRightChars_eq_nil_iff {cs : List Char} :
    trimRightChars cs = [] ↔ ∀ c ∈ cs, isBlank c = true := by
  rw [trimRightChars, List.reverse_eq_nil_iff, List.dropWhile_eq_nil_iff]
  simp only [List.mem_reverse]

theorem dropBlanks_eq_nil_of_blank {cs : List Char} (h : ∀ c ∈ dropBlanks cs, isBlank c = true) :
    dropBlanks cs = [] := by
  cases hcs : dropBlanks cs with
  | nil => rfl
  | cons c rest =>
    have hfirst := List.head?_dropWhile_not isBlank cs
    rw [← dropBlanks, hcs] at hfirst
    have hblank := h c (by simp [hcs])
    simp [hblank] at hfirst

theorem isEmpty_trim (s : String) :
    (trim s).isEmpty = false ↔ ∃ c ∈ s.toList, isBlank c = false := by
  have hnil : trimRightChars (dropBlanks s.toList) = [] ↔ ∀ c ∈ s.toList, isBlank c = true := by
    rw [trimRightChars_eq_nil_iff]
    refine ⟨fun h => List.dropWhile_eq_nil_iff.1 (dropBlanks_eq_nil_of_blank h), fun h => ?_⟩
    have hnil : dropBlanks s.toList = [] := List.dropWhile_eq_nil_iff.2 h
    simp [hnil]
  have hempty : (trim s).isEmpty = true ↔ ∀ c ∈ s.toList, isBlank c = true := by
    rw [← hnil, String.isEmpty_iff, trim, ← String.toList_inj, String.toList_ofList]
    rfl
  rw [← Bool.not_eq_true, hempty]
  simp

end Text

namespace MessageTree

/-- Texts, and groups of such at every depth. -/
inductive IsTree : Value → Prop where
  | text (s : String) : IsTree (.str s)
  | group {entries : List (Value × Value)} : (∀ e ∈ entries, IsTree e.2) → IsTree (.dict entries)

theorem isTree_dict_iff {entries : List (Value × Value)} :
    IsTree (.dict entries) ↔ ∀ e ∈ entries, IsTree e.2 :=
  ⟨fun (.group h) => h, .group⟩

mutual

theorem flattenValue_isOk_iff (path : String) (v : Value) :
    (∃ texts, flattenValue path v = .ok texts) ↔ IsTree v ∧ v.hasText = true := by
  cases v with
  | str s => exact ⟨fun _ => ⟨.text s, rfl⟩, fun _ => ⟨_, rfl⟩⟩
  | dict entries =>
    rw [isTree_dict_iff, Value.hasText]
    exact flattenEntries_isOk_iff path [] entries
  | _ =>
    refine ⟨fun ⟨texts, h⟩ => ?_, fun ⟨h, _⟩ => ?_⟩
    · contradiction
    · contradiction

theorem flattenEntries_isOk_iff (group : String) (flat : List (String × String))
    (entries : List (Value × Value)) :
    (∃ texts, flattenEntries group flat entries = .ok texts) ↔
      (∀ e ∈ entries, IsTree e.2) ∧ Value.entriesHaveText entries = true := by
  cases entries with
  | nil => simp [flattenEntries, Value.entriesHaveText]
  | cons entry rest =>
    obtain ⟨name, v⟩ := entry
    rw [List.forall_mem_cons, flattenEntries, Value.display?, Value.entriesHaveText]
    cases name.hasText with
    | false => simp
    | true =>
      have hvalue := flattenValue_isOk_iff (join group name.display) v
      simp only [if_true, Bool.true_and, Bool.and_eq_true]
      cases hflat : flattenValue (join group name.display) v with
      | error e =>
        have hbad : ¬ (IsTree v ∧ v.hasText = true) := by
          rw [← hvalue, hflat]
          simp
        simp only [reduceCtorEq, exists_false, false_iff]
        exact fun ⟨⟨htree, _⟩, htext, _⟩ => hbad ⟨htree, htext⟩
      | ok texts =>
        have hgood : IsTree v ∧ v.hasText = true := hvalue.1 ⟨texts, hflat⟩
        have hrest := flattenEntries_isOk_iff group (Entries.overlay flat texts) rest
        simpa [hgood.1, hgood.2] using hrest

end

theorem flatten_isOk_iff {entries : List (Value × Value)} :
    (∃ flat, flatten "" entries = .ok flat) ↔
      IsTree (.dict entries) ∧ (Value.dict entries).hasText = true := by
  rw [isTree_dict_iff, Value.hasText]
  exact flattenEntries_isOk_iff "" [] entries

end MessageTree

namespace PhraseFile

theorem isString_eq_true_iff {v : Value} : isString v = true ↔ ∃ s, v = .str s := by
  cases v <;> simp [isString]

theorem locale?_eq_ok_iff {v : Option Value} {l : String} : locale? v = .ok l ↔
    ∃ s, v = some (.str s) ∧ (∃ c ∈ s.toList, Text.isBlank c = false) ∧ l = Text.trim s := by
  constructor
  · intro h
    unfold locale? at h
    split at h
    · contradiction
    · next s =>
      dsimp only at h
      split at h
      · contradiction
      · next htrim =>
        cases h
        exact ⟨s, rfl, (Text.isEmpty_trim s).1 (by simpa using htrim), rfl⟩
    · contradiction
  · rintro ⟨s, rfl, hs, rfl⟩
    simp [locale?, (Text.isEmpty_trim s).2 hs]

def asDictionary (v : Option Value) : Value := v.getD (.dict [])

def IsNamed (entries : List (Value × Value)) : Prop := ∀ e ∈ entries, ∃ name, e.1 = .str name

theorem filter_isString_eq_nil_iff {entries : List (Value × Value)} :
    entries.filter (!isString ·.1) = [] ↔ IsNamed entries := by
  simp [IsNamed, List.filter_eq_nil_iff, isString_eq_true_iff]

theorem dictionary?_eq_ok_iff {field : String} {v : Option Value} {entries : List (Value × Value)} :
    dictionary? field v = .ok entries ↔ asDictionary v = .dict entries ∧ IsNamed entries := by
  constructor
  · intro h
    unfold dictionary? at h
    split at h
    · cases h
      exact ⟨rfl, by simp [IsNamed]⟩
    · next es =>
      split at h
      · next hgood =>
        cases h
        exact ⟨rfl, filter_isString_eq_nil_iff.1 hgood⟩
      · contradiction
    · contradiction
  · rintro ⟨hv, hkeys⟩
    cases v with
    | none =>
      cases hv
      rfl
    | some v =>
      obtain rfl : v = .dict entries := hv
      rw [dictionary?, filter_isString_eq_nil_iff.2 hkeys]

theorem messages?_eq_ok_iff {v : Option Value} {entries : List (Value × Value)} :
    messages? v = .ok entries ↔ asDictionary v = .dict entries ∧ IsNamed entries ∧
      MessageTree.IsTree (.dict entries) ∧ (Value.dict entries).hasText = true := by
  rw [← MessageTree.flatten_isOk_iff, ← and_assoc, ← @dictionary?_eq_ok_iff "translations"]
  constructor
  · intro h
    unfold messages? at h
    split at h
    · contradiction
    · next es hes =>
      split at h
      · next flat hflat =>
        cases h
        exact ⟨hes, flat, hflat⟩
      · contradiction
  · rintro ⟨hentries, flat, hflat⟩
    simp only [messages?, hentries, hflat]

theorem strayIssue?_eq_none_iff {v : Value} :
    strayIssue? v = none ↔ ∃ field ∈ fields, v = .str field := by
  cases v <;> simp [strayIssue?, eq_comm]

theorem strayIssues_eq_nil_iff {root : List (Value × Value)} :
    strayIssues root = [] ↔ ∀ e ∈ root, ∃ field ∈ fields, e.1 = .str field := by
  simp only [strayIssues, List.filterMap_eq_nil_iff, strayIssue?_eq_none_iff]

def Explains {α : Type} (check : Except (List Issue) α) : Prop :=
  ∀ issues, check = .error issues → issues ≠ []

theorem explains_locale? (v : Option Value) : Explains (locale? v) := by
  intro issues h
  unfold locale? at h
  split at h
  · cases h
    simp
  · dsimp only at h
    split at h
    · cases h
      simp
    · contradiction
  · cases h
    simp

theorem explains_dictionary? (field : String) (v : Option Value) :
    Explains (dictionary? field v) := by
  intro issues h
  unfold dictionary? at h
  split at h
  · contradiction
  · split at h
    · contradiction
    · next hbad =>
      cases h
      simpa using hbad
  · cases h
    simp

theorem explains_messages? (v : Option Value) : Explains (messages? v) := by
  intro issues h
  unfold messages? at h
  split at h
  · next hissues =>
    cases h
    exact explains_dictionary? _ v _ hissues
  · split at h
    · contradiction
    · cases h
      simp

theorem Explains.exists_ok {α : Type} {check : Except (List Issue) α} (h : Explains check)
    (hissues : issuesOf check = []) : ∃ a, check = .ok a := by
  cases check with
  | ok a => exact ⟨a, rfl⟩
  | error issues => exact absurd hissues (h issues rfl)

theorem ofEntries_eq_ok_iff {root : List (Value × Value)} {f : PhraseFile} :
    ofEntries root = .ok f ↔ locale? (Value.find? "locale" root) = .ok f.locale ∧
      dictionary? "context" (Value.find? "context" root) = .ok f.context ∧
      messages? (Value.find? "translations" root) = .ok f.messages ∧ strayIssues root = [] := by
  constructor
  · intro h
    unfold ofEntries at h
    dsimp only at h
    split at h
    · next hlocale hcontext hmessages hstray =>
      cases h
      exact ⟨hlocale, hcontext, hmessages, hstray⟩
    · contradiction
  · rintro ⟨hlocale, hcontext, hmessages, hstray⟩
    simp only [ofEntries, hlocale, hcontext, hmessages, hstray]

theorem explains_ofEntries (root : List (Value × Value)) : Explains (ofEntries root) := by
  intro issues h hnil
  subst hnil
  unfold ofEntries at h
  dsimp only at h
  split at h
  · contradiction
  · next hno =>
    simp only [Except.error.injEq, List.append_eq_nil_iff] at h
    obtain ⟨⟨⟨hlocale, hcontext⟩, hmessages⟩, hstray⟩ := h
    -- Without an issue every check passes, and then there is a file.
    obtain ⟨l, hl⟩ := (explains_locale? _).exists_ok hlocale
    obtain ⟨c, hc⟩ := (explains_dictionary? _ _).exists_ok hcontext
    obtain ⟨m, hm⟩ := (explains_messages? _).exists_ok hmessages
    exact hno l c m hl hc hm hstray

structure IsValid (root : List (Value × Value)) : Prop where
  fields : ∀ e ∈ root, ∃ field ∈ fields, e.1 = .str field
  locale : ∃ s, Value.find? "locale" root = some (.str s) ∧ ∃ c ∈ s.toList, Text.isBlank c = false
  context : ∃ entries, asDictionary (Value.find? "context" root) = .dict entries ∧ IsNamed entries
  messages : ∃ entries, asDictionary (Value.find? "translations" root) = .dict entries ∧
    IsNamed entries ∧ MessageTree.IsTree (.dict entries)

/-- The names above messages have texts, at every depth; the messages themselves always do. -/
def NamesHaveText (root : List (Value × Value)) : Prop :=
  (asDictionary (Value.find? "translations" root)).hasText = true

structure IsReadFrom (f : PhraseFile) (root : List (Value × Value)) : Prop where
  locale : ∃ s, Value.find? "locale" root = some (.str s) ∧ f.locale = Text.trim s
  context : asDictionary (Value.find? "context" root) = .dict f.context
  messages : asDictionary (Value.find? "translations" root) = .dict f.messages

theorem isValid_of_ofEntries {root : List (Value × Value)} {f : PhraseFile}
    (h : ofEntries root = .ok f) : (IsValid root ∧ NamesHaveText root) ∧ f.IsReadFrom root ∧
      ∃ flat, MessageTree.flatten "" f.messages = .ok flat := by
  obtain ⟨hlocale, hcontext, hmessages, hstray⟩ := ofEntries_eq_ok_iff.1 h
  obtain ⟨s, hs, hblank, htrim⟩ := locale?_eq_ok_iff.1 hlocale
  obtain ⟨hdict, hnamed⟩ := dictionary?_eq_ok_iff.1 hcontext
  obtain ⟨hdict', hnamed', htree, htexts⟩ := messages?_eq_ok_iff.1 hmessages
  have hnames : NamesHaveText root := by rwa [NamesHaveText, hdict']
  exact ⟨⟨⟨strayIssues_eq_nil_iff.1 hstray, ⟨s, hs, hblank⟩, ⟨_, hdict, hnamed⟩,
    ⟨_, hdict', hnamed', htree⟩⟩, hnames⟩, ⟨⟨s, hs, htrim⟩, hdict, hdict'⟩,
    MessageTree.flatten_isOk_iff.2 ⟨htree, htexts⟩⟩

theorem IsValid.exists_ofEntries {root : List (Value × Value)} (h : IsValid root)
    (hnames : NamesHaveText root) : ∃ f, ofEntries root = .ok f := by
  obtain ⟨s, hs, hblank⟩ := h.locale
  obtain ⟨context, hcontext⟩ := h.context
  obtain ⟨messages, hdict, hnamed, htree⟩ := h.messages
  rw [NamesHaveText, hdict] at hnames
  exact ⟨⟨Text.trim s, context, messages⟩, ofEntries_eq_ok_iff.2
    ⟨locale?_eq_ok_iff.2 ⟨s, hs, hblank, rfl⟩, dictionary?_eq_ok_iff.2 hcontext,
      messages?_eq_ok_iff.2 ⟨hdict, hnamed, htree, hnames⟩, strayIssues_eq_nil_iff.2 h.fields⟩⟩

structure Makes (f : PhraseFile) (c : Catalog) : Prop where
  locale : c.locale = f.locale
  texts : MessageTree.flatten "" f.messages = .ok c.texts
  context : ∀ name v, (.str name, v) ∈ f.context → (∀ w, (.str name, w) ∈ f.context → w = v) →
    c.context.lookup name = some v
  helpers : ∀ name, .str name ∉ f.context.map Prod.fst →
    c.context.lookup name = Catalog.helpers.lookup name

theorem makes_of_flatten {f : PhraseFile} {flat : List (String × String)}
    (h : MessageTree.flatten "" f.messages = .ok flat) :
    f.Makes { Catalog.new f.locale f.context with texts := flat } where
  locale := rfl
  texts := h
  context name v hmem honly := by
    have hlookup : (Locals.ofEntries f.context).reverse.lookup name = some v := by
      cases hw : (Locals.ofEntries f.context).reverse.lookup name with
      | none =>
        have hnone := List.lookup_eq_none_iff.1 hw (name, v)
          (List.mem_reverse.2 (Locals.mem_ofEntries.2 hmem))
        simp at hnone
      | some w =>
        have hmem' := List.mem_reverse.1 (Entries.mem_of_lookup hw)
        rw [honly w (Locals.mem_ofEntries.1 hmem')]
    rw [Catalog.new, Entries.lookup_overlay, hlookup]
    rfl
  helpers name hname := by
    rw [Catalog.new, Entries.lookup_overlay, Locals.lookup_ofEntries_of_not_mem hname]
    rfl

theorem extendMessages_new {f : PhraseFile} {flat : List (String × String)}
    (h : MessageTree.flatten "" f.messages = .ok flat) (memo : ParseMemo) :
    (Catalog.new f.locale f.context).extendMessages memo f.messages =
      .ok ({ Catalog.new f.locale f.context with texts := flat },
        (memo.evictMany (flat.map (·.1))).2) := by
  obtain ⟨texts, rfl⟩ := MessageTree.exists_texts_of_flatten h
  have hoverlay : Entries.overlay [] (Entries.ofPairs texts) = Entries.ofPairs texts :=
    Entries.overlay_ofPairs [] texts
  simp only [Catalog.extendMessages, h, Catalog.new, hoverlay]

theorem readWith_eq {readYaml : String → Except Yaml.Fault Value} {text : String} {v : Value}
    (h : readYaml (String.ofList (unifyLines text.toList)) = .ok v) :
    readWith readYaml (some text) = ofValue v := by
  rw [readWith, h]

/-- A text in which a reader of YAML finds a dictionary is accepted as a phrase file just if the
dictionary is a valid one whose names have texts, and otherwise it is refused with at least one
issue. An accepted file has what the dictionary says, with the locale trimmed. A catalog can always
be made of it, whatever the memo: its texts are the messages put flat, and its context has the
entries of the file, which take the place of helpers of the same name. -/
theorem readWith_accepts {readYaml : String → Except Yaml.Fault Value} {text : String}
    {root : List (Value × Value)}
    (h : readYaml (String.ofList (unifyLines text.toList)) = .ok (.dict root)) :
    ((∃ f, readWith readYaml (some text) = .ok f) ↔ IsValid root ∧ NamesHaveText root) ∧
    (¬ (IsValid root ∧ NamesHaveText root) →
      ∃ issues, issues ≠ [] ∧ readWith readYaml (some text) = .error (.invalid issues)) ∧
    ∀ f, readWith readYaml (some text) = .ok f → f.IsReadFrom root ∧
      ∃ c, f.catalog = .ok c ∧ f.Makes c ∧
        ∀ memo, ∃ memo', (Catalog.new f.locale f.context).extendMessages memo f.messages =
          .ok (c, memo') := by
  have hread : readWith readYaml (some text) = (ofEntries root).mapError .invalid := readWith_eq h
  cases hroot : ofEntries root with
  | error issues =>
    have hinvalid : ¬ (IsValid root ∧ NamesHaveText root) := fun ⟨hvalid, hnames⟩ => by
      obtain ⟨f, hf⟩ := hvalid.exists_ofEntries hnames
      rw [hroot] at hf
      contradiction
    rw [hroot] at hread
    refine ⟨⟨fun ⟨f, hf⟩ => ?_, fun h => absurd h hinvalid⟩, fun _ => ⟨issues, ?_, hread⟩,
      fun f hf => ?_⟩
    · rw [hread] at hf
      contradiction
    · exact explains_ofEntries root issues hroot
    · rw [hread] at hf
      contradiction
  | ok f =>
    obtain ⟨hvalid, hfrom, flat, hflat⟩ := isValid_of_ofEntries hroot
    rw [hroot] at hread
    refine ⟨⟨fun _ => hvalid, fun _ => ⟨f, hread⟩⟩, fun h => absurd hvalid h, fun g hg => ?_⟩
    rw [hread] at hg
    cases hg
    exact ⟨hfrom, _, by rw [catalog, extendMessages_new hflat]; rfl, makes_of_flatten hflat,
      fun memo => ⟨_, extendMessages_new hflat memo⟩⟩

theorem find?_cons (name other : String) (v : Value) (entries : List (Value × Value)) :
    Value.find? name ((.str other, v) :: entries) =
      if name == other then some v else Value.find? name entries := by
  have hsame : (Value.str name == Value.str other) = (name == other) := by
    change Value.same _ _ = _
    rw [Value.same]
  rw [Value.find?, List.lookup_cons, hsame]
  cases name == other <;> rfl

theorem readWith_accepts_rebound :
    let text := "translations: \x7ba: \x7b1: x, null: y\x7d\x7d\nlocale: ' en '\ncontext: \x7bt: 1\x7d"
    let messages : List (Value × Value) :=
      [(.str "a", .dict [(.int 1, .str "x"), (.null, .str "y")])]
    let root : List (Value × Value) := [(.str "translations", .dict messages),
      (.str "locale", .str " en "), (.str "context", .dict [(.str "t", .int 1)])]
    let readYaml : String → Except Yaml.Fault Value := fun _ => .ok (.dict root)
    IsValid root ∧ NamesHaveText root ∧
    ∃ f c, readWith readYaml (some text) = .ok f ∧ f.catalog = .ok c ∧ c.locale = "en" ∧
      c.texts = [("a.1", "x"), ("a.None", "y")] ∧ c.context.lookup "t" = some (.int 1) ∧
      c.context.lookup "tToParts" = some (.function (.helper .renderParts)) := by
  intro text messages root readYaml
  have hlocale : Value.find? "locale" root = some (.str " en ") := by simp [root, find?_cons]
  have hcontext : asDictionary (Value.find? "context" root) = .dict [(.str "t", .int 1)] := by
    simp [root, find?_cons, asDictionary]
  have hmessages : asDictionary (Value.find? "translations" root) = .dict messages := by
    simp [root, find?_cons, asDictionary]
  have hone : Number.hasText 1 = true :=
    Number.hasText_iff.2 (Nat.one_lt_pow (by decide) (by decide))
  have hvalid : IsValid root := {
    fields := by simp [root, fields]
    locale := ⟨" en ", hlocale, 'e', by simp, rfl⟩
    context := ⟨_, hcontext, by simp [IsNamed]⟩
    messages := ⟨messages, hmessages, by simp [IsNamed, messages], by
      simp [messages, MessageTree.isTree_dict_iff, MessageTree.IsTree.text]⟩ }
  have hnames : NamesHaveText root := by
    simp [NamesHaveText, hmessages, messages, Value.hasText, Value.entriesHaveText, hone]
  have hread : readYaml (String.ofList (unifyLines text.toList)) = .ok (.dict root) := rfl
  obtain ⟨haccepts, -, hmade⟩ := readWith_accepts hread
  obtain ⟨f, hf⟩ := haccepts.2 ⟨hvalid, hnames⟩
  obtain ⟨⟨⟨s, hs, htrim⟩, hc, hm⟩, c, hcatalog, hmakes, -⟩ := hmade f hf
  obtain rfl : s = " en " := by simpa [hlocale, eq_comm] using hs
  have hcontext : [(.str "t", .int 1)] = f.context := Value.dict.inj (hcontext.symm.trans hc)
  have hmessages : messages = f.messages := Value.dict.inj (hmessages.symm.trans hm)
  refine ⟨hvalid, hnames, f, c, hf, hcatalog, hmakes.locale.trans htrim, ?_, ?_, ?_⟩
  · have htexts := hmakes.texts
    rw [← hmessages] at htexts
    exact (Except.ok.inj htexts).symm
  · exact hmakes.context "t" (.int 1) (by simp [← hcontext]) (by simp [← hcontext])
  · exact hmakes.helpers "tToParts" (by simp [← hcontext])

/-- Messages that are only texts and groups are refused where a name has no text. -/
theorem readWith_accepts_overlongName :
    let messages : List (Value × Value) :=
      [(.str "a", .dict [(.int (10 ^ Number.maxDigits), .str "x")])]
    let root : List (Value × Value) :=
      [(.str "locale", .str "en"), (.str "translations", .dict messages)]
    IsValid root ∧ ∀ text f, readWith (fun _ => .ok (.dict root)) (some text) ≠ .ok f := by
  intro messages root
  have hlocale : Value.find? "locale" root = some (.str "en") := by simp [root, find?_cons]
  have hcontext : asDictionary (Value.find? "context" root) = .dict [] := by
    simp only [root, find?_cons]
    rfl
  have hmessages : asDictionary (Value.find? "translations" root) = .dict messages := by
    simp [root, find?_cons, asDictionary]
  refine ⟨{ fields := by simp [root, fields]
            locale := ⟨"en", hlocale, 'e', by simp, rfl⟩
            context := ⟨[], hcontext, by simp [IsNamed]⟩
            messages := ⟨messages, hmessages, by simp [IsNamed, messages], by
              simp [messages, MessageTree.isTree_dict_iff, MessageTree.IsTree.text]⟩ }, ?_⟩
  intro text f hf
  have hread : readWith (fun _ => .ok (.dict root)) (some text) =
      (ofEntries root).mapError .invalid := rfl
  rw [hread] at hf
  cases hroot : ofEntries root with
  | error issues =>
    rw [hroot] at hf
    contradiction
  | ok g =>
    obtain ⟨⟨-, hnames⟩, -⟩ := isValid_of_ofEntries hroot
    rw [NamesHaveText, hmessages] at hnames
    simp [messages, Value.hasText, Value.entriesHaveText, Number.hasText_pow] at hnames

end PhraseFile

end MessageCatalog
