import MessageCatalog.Proofs.MemoRuns

/-!
# Steps while a text is parsed

A memo answers by its entries and not by its counts. So it makes no difference to the answers and
to the entries whether steps run while a text is parsed or have run before it is asked for:
whatever the steps do to the entry of its key, what is kept in the end is the same.
-/
namespace MessageCatalog

namespace ParseMemo

variable {m m' : ParseMemo} {key text : String}

def uncounted (m : ParseMemo) : ParseMemo := { m with hits := 0, misses := 0, parses := 0 }

theorem entries_eq_of_uncounted (h : m.uncounted = m'.uncounted) : m.entries = m'.entries := by
  have he := congrArg ParseMemo.entries h
  exact he

theorem Sound.of_uncounted (h : m.Sound) (hu : m.uncounted = m'.uncounted) : m'.Sound := by
  intro e he
  rw [← entries_eq_of_uncounted hu] at he
  exact h e he

theorem lookup_fst_uncounted (m : ParseMemo) (key text : String) :
    (m.lookup key text).1 = (m.uncounted.lookup key text).1 := by
  rw [lookup_fst, lookup_fst]
  rfl

theorem uncounted_lookup (m : ParseMemo) (key text : String) :
    (m.lookup key text).2.uncounted = m.uncounted := by
  have hen := m.enabled_lookup key text
  have hes := m.entries_lookup key text
  rw [uncounted, uncounted, hen, hes]

theorem uncounted_keep (m : ParseMemo) (key text : String) (phrase : Phrase) :
    (m.keep key text phrase).2.uncounted = (m.uncounted.keep key text phrase).2 := by
  have hc : m.uncounted.current? key text = m.current? key text := rfl
  unfold keep
  rw [hc]
  cases hen : m.enabled with
  | false => simp [uncounted, hen]
  | true => cases m.current? key text <;> simp [uncounted, hen]

theorem uncounted_settled (m : ParseMemo) (key text : String) :
    (m.settled key text).uncounted = m.uncounted.settled key text := by
  cases hp : Phrase.parse text with
  | error e => rw [settled_of_error hp, settled_of_error hp]
  | ok phrase => rw [settled_of_ok hp, settled_of_ok hp, uncounted_keep]

theorem evictMany_uncounted (m : ParseMemo) (keys : List String) :
    (m.evictMany keys).1 = (m.uncounted.evictMany keys).1 ∧
      (m.evictMany keys).2.uncounted = (m.uncounted.evictMany keys).2 := by
  induction keys generalizing m with
  | nil => exact ⟨rfl, rfl⟩
  | cons key keys ih =>
    obtain ⟨hcount, hmemo⟩ := ih (m.evict key)
    refine ⟨?_, hmemo⟩
    simp only [evictMany, hcount]
    rfl

theorem settled_of_hit {phrase : Phrase} (h : m.Sound)
    (hl : (m.lookup key text).1 = some phrase) : m.settled key text = m := by
  rw [settled_of_ok (h.parse_of_lookup hl), keep]
  rw [lookup_fst] at hl
  split at hl
  · next hen => simp [hen, hl]
  · contradiction

end ParseMemo

namespace MemoAnswer

mutual

def uncounted : MemoAnswer → MemoAnswer
  | .phrase result during => .phrase result (uncountedAll during)
  | answer => answer

def uncountedAll : List (MemoAnswer × ParseMemo) → List (MemoAnswer × ParseMemo)
  | [] => []
  | (answer, m) :: rest => (answer.uncounted, m.uncounted) :: uncountedAll rest

end

end MemoAnswer

namespace MemoStep

open MemoAnswer

variable {m m' : ParseMemo} {key text : String} {steps left : List MemoStep}

theorem applyAll_cons (m : ParseMemo) (step : MemoStep) (steps : List MemoStep) :
    applyAll m (step :: steps) =
      (step.apply m :: (applyAll (step.apply m).2 steps).1, (applyAll (step.apply m).2 steps).2) := by
  rw [applyAll]

theorem applyAll_append (m : ParseMemo) (steps more : List MemoStep) :
    applyAll m (steps ++ more) =
      ((applyAll m steps).1 ++ (applyAll (applyAll m steps).2 more).1,
        (applyAll (applyAll m steps).2 more).2) := by
  induction steps generalizing m with
  | nil => rfl
  | cons step steps ih =>
    rw [List.cons_append, applyAll_cons, applyAll_cons, ih]
    rfl

-- By induction on the steps: counts are all that looking up changes, so the steps that run while a
-- text is parsed begin on memos that differ at most in counts too.
mutual

theorem apply_uncounted {m m' : ParseMemo} (hm : m.Sound) (h : m.uncounted = m'.uncounted)
    (step : MemoStep) : (step.apply m).1.uncounted = (step.apply m').1.uncounted ∧
      (step.apply m).2.uncounted = (step.apply m').2.uncounted := by
  have hentries := ParseMemo.entries_eq_of_uncounted h
  cases step with
  | getOrParse key text during =>
    have hfound : (m.lookup key text).1 = (m'.lookup key text).1 := by
      rw [m.lookup_fst_uncounted, m'.lookup_fst_uncounted, h]
    have hlooked : (m.lookup key text).2.uncounted = (m'.lookup key text).2.uncounted := by
      rw [m.uncounted_lookup, m'.uncounted_lookup, h]
    cases hl : (m.lookup key text).1 with
    | some phrase =>
      rw [apply_of_hit hl, apply_of_hit (hfound ▸ hl)]
      exact ⟨rfl, hlooked⟩
    | none =>
      obtain ⟨hanswers, hmemos⟩ := applyAll_uncounted (hm.lookup key text) hlooked during
      rw [apply_of_miss hm hl, apply_of_miss (hm.of_uncounted h) (hfound ▸ hl)]
      refine ⟨?_, ?_⟩
      · simp only [uncounted, hanswers]
      · rw [ParseMemo.uncounted_settled, ParseMemo.uncounted_settled, hmemos]
  | get key =>
    refine ⟨?_, h⟩
    simp only [apply, ParseMemo.get?, hentries]
  | evict key =>
    refine ⟨?_, congrArg (·.evict key) h⟩
    simp only [apply, ParseMemo.contains, hentries]
  | evictMany keys =>
    obtain ⟨hcount, hmemo⟩ := m.evictMany_uncounted keys
    obtain ⟨hcount', hmemo'⟩ := m'.evictMany_uncounted keys
    refine ⟨?_, ?_⟩
    · simp only [apply, hcount, hcount', h]
    · simp only [apply, hmemo, hmemo', h]
  | clear => exact ⟨rfl, congrArg ParseMemo.clear h⟩
  | contains key =>
    refine ⟨?_, h⟩
    simp only [apply, ParseMemo.contains, hentries]

theorem applyAll_uncounted {m m' : ParseMemo} (hm : m.Sound) (h : m.uncounted = m'.uncounted)
    (steps : List MemoStep) :
    uncountedAll (applyAll m steps).1 = uncountedAll (applyAll m' steps).1 ∧
      (applyAll m steps).2.uncounted = (applyAll m' steps).2.uncounted := by
  cases steps with
  | nil => exact ⟨rfl, h⟩
  | cons step steps =>
    obtain ⟨hanswer, hmemo⟩ := apply_uncounted hm h step
    obtain ⟨hanswers, hlast⟩ := applyAll_uncounted (sound_apply hm step) hmemo steps
    refine ⟨?_, hlast⟩
    simp only [applyAll_cons, uncountedAll, hanswer, hmemo, hanswers]

end

theorem apply_alone (hm : m.Sound) (key text : String) :
    ∃ m', apply m (.getOrParse key text []) = (.phrase (Phrase.parse text) [], m') ∧
      m'.uncounted = (m.settled key text).uncounted := by
  cases hl : (m.lookup key text).1 with
  | some phrase =>
    refine ⟨(m.lookup key text).2, ?_, ?_⟩
    · rw [apply_of_hit hl, hm.parse_of_lookup hl]
    · rw [m.uncounted_lookup, ParseMemo.settled_of_hit hm hl]
  | none =>
    refine ⟨_, apply_of_miss hm hl, ?_⟩
    rw [ParseMemo.uncounted_settled, ParseMemo.uncounted_settled]
    exact congrArg (·.settled key text) (m.uncounted_lookup key text)

/-- Asking for a phrase that is not at hand, with steps between looking it up and keeping it, is
answered as if these steps had run first, and so are the steps, and the same entries are left: only
counts can tell. -/
theorem during_linearizes {environment : Option String} {flag : Option Bool}
    (h : Reaches (.new environment flag) steps m left)
    (hmiss : (m.lookup key text).1 = none) (during : List MemoStep) :
    ∃ result answers answers' m₁ m₂,
      apply m (.getOrParse key text during) = (.phrase result answers, m₁) ∧
      applyAll m (during ++ [.getOrParse key text []]) =
        (answers' ++ [(.phrase result [], m₂)], m₂) ∧
      uncountedAll answers = uncountedAll answers' ∧ m₁.uncounted = m₂.uncounted := by
  have hm := h.sound
  obtain ⟨hanswers, hmemos⟩ :=
    applyAll_uncounted (hm.lookup key text) (m.uncounted_lookup key text) during
  obtain ⟨m₂, halone, hsettled⟩ := apply_alone (sound_applyAll hm during) key text
  refine ⟨_, _, (applyAll m during).1, _, m₂, apply_of_miss hm hmiss, ?_, hanswers, ?_⟩
  · rw [applyAll_append]
    simp only [applyAll, halone]
  · rw [hsettled, ParseMemo.uncounted_settled, ParseMemo.uncounted_settled, hmemos]

theorem during_linearizes_nested :
    let m : ParseMemo := ⟨true, [("k", "old", [.text "old"])], 0, 1, 1⟩
    let during : List MemoStep :=
      [.evict "k", .getOrParse "j" "$\x7b" [.getOrParse "k" "other" []], .get "k"]
    Reaches (.new none none) [.getOrParse "k" "old" []] m [] ∧ (m.lookup "k" "new").1 = none ∧
      ∃ result answers answers' m₁ m₂,
        apply m (.getOrParse "k" "new" during) = (.phrase result answers, m₁) ∧
        applyAll m (during ++ [.getOrParse "k" "new" []]) =
          (answers' ++ [(.phrase result [], m₂)], m₂) ∧
        uncountedAll answers = uncountedAll answers' ∧ m₁.uncounted = m₂.uncounted := by
  intro m during
  have hold : Phrase.parse "old" = .ok [.text "old"] :=
    Phrase.parse_plain (by decide) (by decide +kernel)
  have hfirst : (apply (.new none none) (.getOrParse "k" "old" [])).2 = m := by
    rw [apply_of_miss (ParseMemo.sound_new none none) rfl, ParseMemo.settled_of_ok hold]
    rfl
  have hreach : Reaches (.new none none) [.getOrParse "k" "old" []] m [] := by
    refine .step ?_
    rw [hfirst]
    exact .start m []
  have hmiss : (m.lookup "k" "new").1 = none := rfl
  exact ⟨hreach, hmiss, during_linearizes hreach hmiss during⟩

end MemoStep

end MessageCatalog
