import MessageCatalog.ParseMemo

/-!
# Sound memos

A memo is sound if each phrase in it is what its text is parsed to. Looking up, keeping, evicting
and clearing leave a memo sound, in whatever order they come and whatever happens while a text is
parsed. With a sound memo a phrase is what it would be without one.

What the parts of steps keep, steps keep, and so do those that run while a text is parsed.
-/
namespace MessageCatalog

namespace ParseMemo

variable {m : ParseMemo} {key text : String} {phrase : Phrase}

def Sound (m : ParseMemo) : Prop := ∀ e ∈ m.entries, Phrase.parse e.2.1 = .ok e.2.2

theorem sound_of_entries_nil (h : m.entries = []) : m.Sound := by
  intro e he
  rw [h] at he
  contradiction

theorem sound_new (environment : Option String) (flag : Option Bool) :
    (new environment flag).Sound :=
  sound_of_entries_nil rfl

theorem sound_clear (m : ParseMemo) : m.clear.Sound := sound_of_entries_nil rfl

theorem Sound.parse_of_current (h : m.Sound) (hc : m.current? key text = some phrase) :
    Phrase.parse text = .ok phrase := by
  unfold current? at hc
  split at hc
  · next kept p hl =>
    split at hc
    · next hk =>
      cases hc
      have hp := h _ (Entries.mem_of_lookup hl)
      rwa [hk] at hp
    · contradiction
  · contradiction

theorem entries_lookup (m : ParseMemo) (key text : String) :
    (m.lookup key text).2.entries = m.entries := by
  unfold lookup
  split
  · rfl
  · split <;> rfl

theorem Sound.lookup (h : m.Sound) (key text : String) : (m.lookup key text).2.Sound := by
  intro e he
  rw [entries_lookup] at he
  exact h e he

theorem Sound.parse_of_lookup (h : m.Sound) (hl : (m.lookup key text).1 = some phrase) :
    Phrase.parse text = .ok phrase := by
  unfold ParseMemo.lookup at hl
  split at hl
  · contradiction
  · split at hl
    · next hc =>
      cases hl
      exact h.parse_of_current hc
    · contradiction

theorem Sound.keep (h : m.Sound) (key : String) (hp : Phrase.parse text = .ok phrase) :
    (m.keep key text phrase).1 = phrase ∧ (m.keep key text phrase).2.Sound := by
  unfold ParseMemo.keep
  split
  · exact ⟨rfl, h⟩
  · split
    · next kept hc =>
      have hk := h.parse_of_current hc
      rw [hp] at hk
      cases hk
      exact ⟨rfl, h⟩
    · refine ⟨rfl, fun e he => ?_⟩
      rcases Entries.mem_of_mem_put he with rfl | he
      · exact hp
      · exact h e he

theorem Sound.getOrParse (h : m.Sound) (key text : String) :
    (m.getOrParse key text).1 = Phrase.parse text ∧ (m.getOrParse key text).2.Sound := by
  have hs := h.lookup key text
  unfold ParseMemo.getOrParse
  split
  · next hl =>
    rw [hl] at hs
    exact ⟨(h.parse_of_lookup (by rw [hl])).symm, hs⟩
  · next hl =>
    rw [hl] at hs
    cases hp : Phrase.parse text with
    | error e => exact ⟨rfl, hs⟩
    | ok phrase =>
      obtain ⟨hk, hm⟩ := hs.keep key hp
      exact ⟨congrArg Except.ok hk, hm⟩

/-- A property that looking up, keeping what was parsed, evicting and clearing do not destroy. -/
structure Kept (P : ParseMemo → Prop) : Prop where
  lookup : ∀ {m : ParseMemo} (key text : String), P m → P (m.lookup key text).2
  keep : ∀ {m : ParseMemo} (key : String) {text : String} {phrase : Phrase},
    Phrase.parse text = .ok phrase → P m → P (m.keep key text phrase).2
  evict : ∀ {m : ParseMemo} (key : String), P m → P (m.evict key)
  clear : ∀ {m : ParseMemo}, P m → P m.clear

theorem Kept.evictMany {P : ParseMemo → Prop} (h : Kept P) (hm : P m) (keys : List String) :
    P (m.evictMany keys).2 := by
  induction keys generalizing m with
  | nil => exact hm
  | cons key keys ih => exact ih (h.evict key hm)

theorem kept_sound : Kept Sound where
  lookup key text hm := hm.lookup key text
  keep key _ _ hp hm := (hm.keep key hp).2
  evict _ hm := fun e he => hm e (Entries.mem_of_mem_remove he)
  clear {m} _ := m.sound_clear

theorem Sound.evictMany (h : m.Sound) (keys : List String) : (m.evictMany keys).2.Sound :=
  kept_sound.evictMany h keys

end ParseMemo

namespace MemoStep

variable {P : ParseMemo → Prop} {m : ParseMemo}

-- By induction on the steps: those that run while a text is parsed are inside of their step.
mutual

theorem kept_apply (h : ParseMemo.Kept P) {m : ParseMemo} (hm : P m) (step : MemoStep) :
    P (step.apply m).2 := by
  cases step with
  | getOrParse key text during =>
    have hs := h.lookup key text hm
    rw [apply]
    split
    · next hl =>
      rw [hl] at hs
      exact hs
    · next hl =>
      rw [hl] at hs
      have hd := kept_applyAll h hs during
      cases hp : Phrase.parse text with
      | error e => exact hd
      | ok phrase => exact h.keep key hp hd
  | get key => exact hm
  | evict key => exact h.evict key hm
  | evictMany keys => exact h.evictMany hm keys
  | clear => exact h.clear hm
  | contains key => exact hm

theorem kept_applyAll (h : ParseMemo.Kept P) {m : ParseMemo} (hm : P m) (steps : List MemoStep) :
    P (applyAll m steps).2 := by
  cases steps with
  | nil => exact hm
  | cons step steps => exact kept_applyAll h (kept_apply h hm step) steps

end

theorem sound_apply (h : m.Sound) (step : MemoStep) : (step.apply m).2.Sound :=
  kept_apply ParseMemo.kept_sound h step

theorem sound_applyAll (h : m.Sound) (steps : List MemoStep) : (applyAll m steps).2.Sound :=
  kept_applyAll ParseMemo.kept_sound h steps

end MemoStep

end MessageCatalog
