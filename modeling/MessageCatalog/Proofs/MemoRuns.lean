import MessageCatalog.Proofs.MemoSoundness
import MessageCatalog.Proofs.RoundTrip

/-!
# Runs of a memo

A run of steps can be halted before any of its steps and where a list of steps ends, also among the
steps that run while a text is parsed. Wherever it is halted the memo is sound, and a phrase that is
asked for there is what its text is parsed to, whatever runs while it is parsed.
-/
namespace MessageCatalog

namespace ParseMemo

variable {m : ParseMemo} {key text : String} {phrase : Phrase}

theorem current?_eq_some_iff :
    m.current? key text = some phrase ↔ m.entries.lookup key = some (text, phrase) := by
  unfold current?
  cases hl : m.entries.lookup key with
  | none => simp
  | some e =>
    obtain ⟨kept, p⟩ := e
    by_cases hk : kept = text <;> simp [hk]

theorem enabled_lookup (m : ParseMemo) (key text : String) :
    (m.lookup key text).2.enabled = m.enabled := by
  unfold lookup
  split
  · rfl
  · split <;> rfl

theorem lookup_fst (m : ParseMemo) (key text : String) :
    (m.lookup key text).1 = if m.enabled then m.current? key text else none := by
  unfold lookup
  cases m.enabled with
  | false => rfl
  | true => cases m.current? key text <;> rfl

theorem entry_of_lookup (h : (m.lookup key text).1 = some phrase) :
    (m.lookup key text).2.entries.lookup key = some (text, phrase) := by
  rw [lookup_fst] at h
  split at h
  · rw [entries_lookup, current?_eq_some_iff.1 h]
  · contradiction

theorem enabled_keep (m : ParseMemo) (key text : String) (phrase : Phrase) :
    (m.keep key text phrase).2.enabled = m.enabled := by
  unfold keep
  split
  · rfl
  · split <;> rfl

theorem kept_enabled (b : Bool) : Kept fun m => m.enabled = b where
  lookup key text hm := (enabled_lookup _ key text).trans hm
  keep key _ _ _ hm := (enabled_keep _ key _ _).trans hm
  evict _ hm := hm
  clear hm := hm

theorem Sound.entry_of_keep (h : m.Sound) (he : m.enabled = true)
    (hp : Phrase.parse text = .ok phrase) :
    (m.keep key text phrase).2.entries.lookup key = some (text, phrase) := by
  unfold ParseMemo.keep
  rw [he]
  cases hc : m.current? key text with
  | none => exact Entries.lookup_put_self key _ _
  | some kept =>
    have hk := h.parse_of_current hc
    rw [hp] at hk
    cases hk
    exact current?_eq_some_iff.1 hc

def settled (m : ParseMemo) (key text : String) : ParseMemo :=
  match Phrase.parse text with
  | .error _ => m
  | .ok phrase => (m.keep key text phrase).2

theorem settled_of_error {e : ParseError} (h : Phrase.parse text = .error e) :
    m.settled key text = m := by
  rw [settled, h]

theorem settled_of_ok (h : Phrase.parse text = .ok phrase) :
    m.settled key text = (m.keep key text phrase).2 := by
  rw [settled, h]

end ParseMemo

namespace MemoStep

variable {m m' : ParseMemo} {key text : String} {steps left during : List MemoStep}

/-- A run of steps comes to a memo with some steps left to do: of the steps themselves, or of those
that run while a text is parsed. -/
inductive Reaches : ParseMemo → List MemoStep → ParseMemo → List MemoStep → Prop where
  | start (m : ParseMemo) (steps : List MemoStep) : Reaches m steps m steps
  | step {m m' : ParseMemo} {step : MemoStep} {rest left : List MemoStep} :
      Reaches (step.apply m).2 rest m' left → Reaches m (step :: rest) m' left
  | during {m m' : ParseMemo} {key text : String} {during rest left : List MemoStep} :
      (m.lookup key text).1 = none → Reaches (m.lookup key text).2 during m' left →
      Reaches m (.getOrParse key text during :: rest) m' left

theorem Reaches.kept {P : ParseMemo → Prop} (hP : ParseMemo.Kept P) (h : Reaches m steps m' left)
    (hm : P m) : P m' := by
  induction h with
  | start => exact hm
  | step _ ih => exact ih (kept_apply hP hm _)
  | during _ _ ih => exact ih (hP.lookup _ _ hm)

theorem Reaches.sound {environment : Option String} {flag : Option Bool}
    (h : Reaches (.new environment flag) steps m left) : m.Sound :=
  h.kept ParseMemo.kept_sound (ParseMemo.sound_new environment flag)

theorem apply_of_hit {phrase : Phrase} (hl : (m.lookup key text).1 = some phrase) :
    apply m (.getOrParse key text during) =
      (.phrase (.ok phrase) [], (m.lookup key text).2) := by
  rw [apply]
  split
  · next h =>
    rw [h] at hl ⊢
    cases hl
    rfl
  · next h =>
    rw [h] at hl
    contradiction

theorem apply_of_miss (hm : m.Sound) (hl : (m.lookup key text).1 = none) :
    apply m (.getOrParse key text during) =
      (.phrase (Phrase.parse text) (applyAll (m.lookup key text).2 during).1,
        (applyAll (m.lookup key text).2 during).2.settled key text) := by
  rw [apply]
  split
  · next h =>
    rw [h] at hl
    contradiction
  · next memo h =>
    have hs := hm.lookup key text
    rw [h] at hs ⊢
    have hd := sound_applyAll hs during
    cases hp : Phrase.parse text with
    | error e => simp only [ParseMemo.settled_of_error hp]
    | ok phrase => simp only [ParseMemo.settled_of_ok hp, (hd.keep key hp).1]

/-- What a memo does when it is asked for a phrase, be it while another text is parsed: the answer
is what the text is parsed to, the entry of the key is then of this text, and a text with a syntax
error leaves everything as the steps that ran meanwhile have left it. -/
structure Transparent (m : ParseMemo) (key text : String) (during : List MemoStep) : Prop where
  answer : ∃ answers, (apply m (.getOrParse key text during)).1 = .phrase (Phrase.parse text) answers
  entry : ∀ phrase, Phrase.parse text = .ok phrase → m.enabled = true →
    (apply m (.getOrParse key text during)).2.entries.lookup key = some (text, phrase)
  failure : ∀ e, Phrase.parse text = .error e →
    (m.lookup key text).2.entries = m.entries ∧
    apply m (.getOrParse key text during) =
      (.phrase (.error e) (applyAll (m.lookup key text).2 during).1,
        (applyAll (m.lookup key text).2 during).2)

theorem transparent_of_sound (hm : m.Sound) (key text : String) (during : List MemoStep) :
    Transparent m key text during := by
  cases hl : (m.lookup key text).1 with
  | some phrase =>
    have ha : apply m (.getOrParse key text during) = _ := apply_of_hit hl
    have hp := hm.parse_of_lookup hl
    refine ⟨⟨[], by rw [ha, hp]⟩, fun p hp' _ => ?_, fun e he => ?_⟩
    · rw [hp] at hp'
      cases hp'
      rw [ha]
      exact ParseMemo.entry_of_lookup hl
    · rw [hp] at he
      contradiction
  | none =>
    have ha : apply m (.getOrParse key text during) = _ := apply_of_miss hm hl
    refine ⟨⟨_, by rw [ha]⟩, fun phrase hp he => ?_, fun e he => ?_⟩
    · have hs := sound_applyAll (hm.lookup key text) during
      have hen : (applyAll (m.lookup key text).2 during).2.enabled = true :=
        kept_applyAll (ParseMemo.kept_enabled true) ((m.enabled_lookup key text).trans he) during
      rw [ha, ParseMemo.settled_of_ok hp]
      exact hs.entry_of_keep hen hp
    · rw [ha, ParseMemo.settled_of_error he, he]
      exact ⟨m.entries_lookup key text, rfl⟩

/-- Wherever a run from a new memo is halted, every phrase that is kept is what its text is parsed
to, and so is every phrase that is asked for next. -/
theorem reaches_transparent {environment : Option String} {flag : Option Bool}
    (h : Reaches (.new environment flag) steps m left) :
    (∀ key text phrase, (key, text, phrase) ∈ m.entries → Phrase.parse text = .ok phrase) ∧
      ∀ key text during later, left = .getOrParse key text during :: later →
        Transparent m key text during :=
  ⟨fun _ _ _ he => h.sound _ he, fun _ _ _ _ _ => transparent_of_sound h.sound _ _ _⟩

theorem reaches_transparent_window :
    let m : ParseMemo := ⟨true, [("k", "old", [.text "old"])], 0, 2, 2⟩
    let during : List MemoStep := [.contains "k", .getOrParse "k" "new" []]
    Reaches (.new none none) [.getOrParse "k" "old" [], .getOrParse "k" "$\x7b" during] m
        [.getOrParse "k" "new" []] ∧
      Phrase.parse "old" = .ok [.text "old"] ∧ Transparent m "k" "new" [] := by
  intro m during
  have hold : Phrase.parse "old" = .ok [.text "old"] :=
    Phrase.parse_plain (by decide) (by decide +kernel)
  have hfirst : (apply (.new none none) (.getOrParse "k" "old" [])).2 =
      ⟨true, [("k", "old", [.text "old"])], 0, 1, 1⟩ := by
    rw [apply_of_miss (ParseMemo.sound_new none none) rfl, ParseMemo.settled_of_ok hold]
    rfl
  have hreach : Reaches (.new none none) [.getOrParse "k" "old" [], .getOrParse "k" "$\x7b" during] m
      [.getOrParse "k" "new" []] := by
    refine .step ?_
    rw [hfirst]
    exact .during rfl (.step (.start _ _))
  have h := reaches_transparent hreach
  exact ⟨hreach, h.1 _ _ _ List.mem_cons_self, h.2 _ _ _ _ rfl⟩

end MemoStep

end MessageCatalog
