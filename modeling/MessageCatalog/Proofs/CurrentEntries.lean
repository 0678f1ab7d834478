import MessageCatalog.Proofs.MemoEvents

/-!
# Current entries

A phrase that has been handed out for a key is current until its key is evicted, the memo is
cleared or a phrase of another text is handed out for the key. Nothing else displaces it, be it
steps on other keys, texts of its key with a syntax error, or lookups that began before it was
there. As long as it is current, its text is not parsed again.
-/
namespace MessageCatalog

theorem ParseMemo.lookup_of_entry {m : ParseMemo} {key text : String} {phrase : Phrase}
    (hen : m.enabled = true) (h : m.entries.lookup key = some (text, phrase)) :
    (m.lookup key text).1 = some phrase := by
  rw [lookup_fst, hen, if_pos rfl, current?_eq_some_iff.2 h]

namespace MemoEvent

variable {m m' : ParseMemo} {log before after : List MemoEvent} {e : MemoEvent}
  {key text : String} {phrase : Phrase}

def Answers (key text : String) (phrase : Phrase) (e : MemoEvent) : Prop :=
  e = .hit key text phrase ∨ e = .parsed key text (.ok phrase)

/-- What was kept for a key and its text is dropped or replaced. -/
def Displaces (key text : String) (e : MemoEvent) : Prop :=
  e = .evicted key ∨ e.isClear = true ∨ ∃ other phrase, other ≠ text ∧ e.Answers key other phrase

theorem Happens.entry_of_answers (h : Happens m e m') (hm : m.Sound) (hen : m.enabled = true)
    (ha : e.Answers key text phrase) : m'.entries.lookup key = some (text, phrase) := by
  rcases ha with rfl | rfl
  · cases h with
    | hit hl => exact ParseMemo.entry_of_lookup hl
  · generalize hr : Except.ok phrase = result at h
    cases h with
    | parsed =>
      rw [ParseMemo.settled_of_ok hr.symm]
      exact hm.entry_of_keep hen hr.symm

theorem entry_keep (hentry : m.entries.lookup key = some (text, phrase)) {key' text' : String}
    (h : key' = key → text' = text) (phrase' : Phrase) :
    (m.keep key' text' phrase').2.entries.lookup key = some (text, phrase) := by
  unfold ParseMemo.keep
  split
  · exact hentry
  · split
    · exact hentry
    · next hc =>
      have hne : key ≠ key' := by
        rintro rfl
        rw [h rfl, ParseMemo.current?_eq_some_iff.2 hentry] at hc
        contradiction
      exact (Entries.lookup_put_of_ne hne _ _).trans hentry

theorem Happens.entry_of_not_displaces (h : Happens m e m') (hd : ¬ e.Displaces key text)
    (hentry : m.entries.lookup key = some (text, phrase)) :
    m'.entries.lookup key = some (text, phrase) := by
  cases h with
  | hit | miss => rwa [ParseMemo.entries_lookup]
  | parsed key' text' =>
    cases hp : Phrase.parse text' with
    | error e => rwa [ParseMemo.settled_of_error hp]
    | ok phrase' =>
      rw [ParseMemo.settled_of_ok hp]
      refine entry_keep hentry (fun hkey => Decidable.byContradiction fun hne => ?_) phrase'
      exact hd (.inr (.inr ⟨text', phrase', hne, .inr (by rw [hp, hkey])⟩))
  | evicted key' =>
    have hne : key ≠ key' := by
      rintro rfl
      exact hd (.inl rfl)
    exact (Entries.lookup_remove_of_ne hne m.entries).trans hentry
  | cleared => exact absurd (.inr (.inl rfl)) hd

theorem Happens.ne_miss (h : Happens m e m') (hen : m.enabled = true)
    (hentry : m.entries.lookup key = some (text, phrase)) : e ≠ .miss key text := by
  rintro rfl
  cases h with
  | miss hl =>
    rw [ParseMemo.lookup_of_entry hen hentry] at hl
    contradiction

theorem Trail.current (h : Trail m log m') (hen : m.enabled = true)
    (hd : ∀ d ∈ log, ¬ d.Displaces key text)
    (hentry : m.entries.lookup key = some (text, phrase)) :
    m'.entries.lookup key = some (text, phrase) ∧ .miss key text ∉ log := by
  induction h with
  | start => exact ⟨hentry, List.not_mem_nil⟩
  | @next m₁ m₂ log e h he ih =>
    obtain ⟨hlog, hlast⟩ := List.forall_mem_append.1 hd
    obtain ⟨hstays, hmiss⟩ := ih hlog
    have hne := he.ne_miss (h.kept (ParseMemo.kept_enabled true) hen) hstays
    refine ⟨he.entry_of_not_displaces (hlast e List.mem_cons_self) hstays, fun hm => ?_⟩
    rcases List.mem_append.1 hm with hm | hm
    · exact hmiss hm
    · exact hne (List.mem_singleton.1 hm).symm

theorem Trail.exists_of_append (h : Trail m (before ++ after) m') :
    ∃ m₁, Trail m before m₁ ∧ Trail m₁ after m' := by
  generalize hlog : before ++ after = log at h
  induction h generalizing after with
  | start =>
    obtain ⟨rfl, rfl⟩ := List.append_eq_nil_iff.1 hlog
    exact ⟨m, .start, .start⟩
  | @next m₁ m₂ log e h he ih =>
    rcases List.eq_nil_or_concat after with rfl | ⟨init, last, rfl⟩
    · rw [List.append_nil] at hlog
      subst hlog
      exact ⟨m₂, h.next he, .start⟩
    · rw [List.concat_eq_append, ← List.append_assoc] at hlog
      obtain ⟨hinit, hlast⟩ := List.append_inj' hlog rfl
      cases hlast
      obtain ⟨m₀, hbefore, hafter⟩ := ih hinit
      exact ⟨m₀, hbefore, List.concat_eq_append ▸ hafter.next he⟩

theorem Trail.exists_happens (h : Trail m (log ++ [e]) m') :
    ∃ m₁, Trail m log m₁ ∧ Happens m₁ e m' := by
  generalize hlog : log ++ [e] = all at h
  cases h with
  | start => simp at hlog
  | next h he =>
    obtain ⟨rfl, hlast⟩ := List.append_inj' hlog rfl
    cases hlast
    exact ⟨_, h, he⟩

end MemoEvent

namespace MemoStep

open MemoEvent

/-- Once an enabled memo has handed a phrase out, and as long as nothing displaces it, its text is
not missed, and asking for it is a hit: the same phrase is handed out, and nothing is parsed. -/
theorem hit_of_answered {environment : Option String} {flag : Option Bool} {m : ParseMemo}
    {steps left : List MemoStep} {before after : List MemoEvent} {e : MemoEvent}
    {key text : String} {phrase : Phrase}
    (h : ReachesBy (.new environment flag) steps (before ++ e :: after) m left)
    (hen : m.enabled = true) (ha : e.Answers key text phrase)
    (hd : ∀ d ∈ after, ¬ d.Displaces key text) (during : List MemoStep) :
    .miss key text ∉ after ∧
      apply m (.getOrParse key text during) =
        (.phrase (.ok phrase) [], { m with hits := m.hits + 1 }) := by
  have hnew := ParseMemo.sound_new environment flag
  have htrail := h.trail hnew
  have hflag : (ParseMemo.new environment flag).enabled = true :=
    (htrail.kept (ParseMemo.kept_enabled _) rfl).symm.trans hen
  rw [List.append_cons] at htrail
  obtain ⟨m₂, hto, hfrom⟩ := htrail.exists_of_append
  obtain ⟨m₁, hto, he⟩ := hto.exists_happens
  have hen₁ := hto.kept (ParseMemo.kept_enabled true) hflag
  have hentry := he.entry_of_answers (hto.kept ParseMemo.kept_sound hnew) hen₁ ha
  obtain ⟨hcurrent, hmiss⟩ := hfrom.current (he.kept (ParseMemo.kept_enabled true) hen₁) hd hentry
  have hfound := ParseMemo.lookup_of_entry hen hcurrent
  refine ⟨hmiss, ?_⟩
  rw [apply_of_hit hfound, (ParseMemo.lookup_of_some hfound).2]

theorem hit_of_answered_window :
    let text := "$\x7b"
    let during : List MemoStep := [.getOrParse "k" "x" [], .getOrParse "k" text [], .evict "j"]
    let e : MemoEvent := .parsed "k" "x" (.ok [.text "x"])
    let after : List MemoEvent := [.miss "k" text, .parsed "k" text (Phrase.parse text), .evicted "j"]
    let m : ParseMemo := ⟨true, [("k", "x", [.text "x"])], 0, 3, 3⟩
    ReachesBy (.new none none) [.getOrParse "k" "x" during]
        ([.miss "k" "x", .miss "k" "x"] ++ e :: after) m [] ∧
      m.enabled = true ∧ e.Answers "k" "x" [.text "x"] ∧ (∀ d ∈ after, ¬ d.Displaces "k" "x") ∧
      .miss "k" "x" ∉ after ∧
      apply m (.getOrParse "k" "x" []) = (.phrase (.ok [.text "x"]) [], { m with hits := 1 }) := by
  intro text during e after m
  have hx : Phrase.parse "x" = .ok [.text "x"] :=
    Phrase.parse_plain (by decide) (by decide +kernel)
  have hopen : Scan.Emits (.start text) [⟨.expressionStart, text, 0⟩] ⟨[.interpolation], 2, []⟩ := by
    decide +kernel
  have htext : Phrase.parse text = .error (.syntaxError ⟨.unexpectedEnd, 0⟩) := by
    rw [Phrase.parse_eq_ofTokens (Scan.tokens_of_emits hopen rfl)]
    rfl
  let m₁ : ParseMemo := ⟨true, [], 0, 1, 1⟩
  let m₂ : ParseMemo := ⟨true, [("k", "x", [.text "x"])], 0, 2, 2⟩
  have hm₁ : m₁.Sound := ParseMemo.sound_of_entries_nil rfl
  have hfirst : apply m₁ (.getOrParse "k" "x" []) = (.phrase (.ok [.text "x"]) [], m₂) := by
    rw [apply_of_miss hm₁ rfl, ParseMemo.settled_of_ok hx, hx]
    rfl
  have hm₂ : m₂.Sound := by
    have h := sound_apply hm₁ (.getOrParse "k" "x" [])
    rwa [hfirst] at h
  have hsecond : (apply m₂ (.getOrParse "k" text [])).2 = m := by
    rw [apply_of_miss hm₂ rfl, ParseMemo.settled_of_error htext]
    rfl
  have hevents : eventsAll m₁ during = .miss "k" "x" :: e :: after := by
    simp only [during, eventsAll, hfirst, hsecond]
    rw [events_of_miss rfl, events_of_miss rfl, hx]
    rfl
  have hlast : (applyAll m₁ during).2 = m := by
    simp only [during, applyAll, hfirst, hsecond]
    rfl
  have hreach : ReachesBy (.new none none) [.getOrParse "k" "x" during]
      ([.miss "k" "x", .miss "k" "x"] ++ e :: after) m [] := by
    have h := reachesBy_eventsAll m₁ during
    rw [hevents, hlast] at h
    exact .during rfl h
  have hcalm : ∀ d ∈ after, ¬ d.Displaces "k" "x" := by
    simp [after, htext, MemoEvent.Displaces, MemoEvent.Answers, MemoEvent.isClear]
  have ha : e.Answers "k" "x" [.text "x"] := .inr rfl
  exact ⟨hreach, rfl, ha, hcalm, hit_of_answered hreach rfl ha hcalm []⟩

end MemoStep

end MessageCatalog
