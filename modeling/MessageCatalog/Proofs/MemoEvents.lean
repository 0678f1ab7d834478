import MessageCatalog.Proofs.MemoRuns

/-!
# Events of a memo

What happens to a memo in a run, one event after the other, what happens while a text is parsed
included. Each event does to the memo what one of its operations does, so what the events keep holds
wherever the run is halted.

The counts of a memo account for the events: hits and misses together are the lookups since the memo
was cleared last, and a text is parsed for each miss that was ever counted.
-/
namespace MessageCatalog

inductive MemoEvent where
  | hit (key text : String) (phrase : Phrase)
  | miss (key text : String)
  | parsed (key text : String) (result : Except ParseError Phrase)
  | evicted (key : String)
  | cleared (misses : Nat)

namespace MemoEvent

def isLookup : MemoEvent → Bool
  | .hit .. | .miss .. => true
  | _ => false

def isMiss : MemoEvent → Bool
  | .miss .. => true
  | _ => false

def isParse : MemoEvent → Bool
  | .parsed .. => true
  | _ => false

def isClear : MemoEvent → Bool
  | .cleared _ => true
  | _ => false

def droppedMisses : MemoEvent → Nat
  | .cleared misses => misses
  | _ => 0

def allDroppedMisses (log : List MemoEvent) : Nat := log.foldl (fun n e => n + e.droppedMisses) 0

/-- The events since the memo was cleared last, the latest first. -/
def sinceClear (log : List MemoEvent) : List MemoEvent :=
  log.reverse.takeWhile fun e => !e.isClear

/-- What an event does to a memo. -/
inductive Happens : ParseMemo → MemoEvent → ParseMemo → Prop where
  | hit {m : ParseMemo} {key text : String} {phrase : Phrase} :
      (m.lookup key text).1 = some phrase → Happens m (.hit key text phrase) (m.lookup key text).2
  | miss {m : ParseMemo} {key text : String} :
      (m.lookup key text).1 = none → Happens m (.miss key text) (m.lookup key text).2
  | parsed (m : ParseMemo) (key text : String) :
      Happens m (.parsed key text (Phrase.parse text)) (m.settled key text)
  | evicted (m : ParseMemo) (key : String) : Happens m (.evicted key) (m.evict key)
  | cleared (m : ParseMemo) : Happens m (.cleared m.misses) m.clear

inductive Trail (m : ParseMemo) : List MemoEvent → ParseMemo → Prop where
  | start : Trail m [] m
  | next {m₁ m₂ : ParseMemo} {log : List MemoEvent} {e : MemoEvent} :
      Trail m log m₁ → Happens m₁ e m₂ → Trail m (log ++ [e]) m₂

variable {m m₁ m₂ : ParseMemo} {log more : List MemoEvent} {e : MemoEvent}

theorem Happens.trail (h : Happens m e m₁) : Trail m [e] m₁ := Trail.next .start h

theorem Trail.append (h : Trail m log m₁) (h' : Trail m₁ more m₂) : Trail m (log ++ more) m₂ := by
  induction h' with
  | start => simpa using h
  | next _ he ih => simpa only [List.append_assoc] using Trail.next ih he

theorem Trail.evicted (m : ParseMemo) (keys : List String) :
    Trail m (keys.map .evicted) (m.evictMany keys).2 := by
  induction keys generalizing m with
  | nil => exact .start
  | cons key keys ih => exact (Happens.evicted m key).trail.append (ih (m.evict key))

theorem Happens.kept {P : ParseMemo → Prop} (hP : ParseMemo.Kept P) (h : Happens m e m₁)
    (hm : P m) : P m₁ := by
  cases h with
  | hit => exact hP.lookup _ _ hm
  | miss => exact hP.lookup _ _ hm
  | parsed key text =>
    cases hp : Phrase.parse text with
    | error e => rwa [ParseMemo.settled_of_error hp]
    | ok phrase =>
      rw [ParseMemo.settled_of_ok hp]
      exact hP.keep key hp hm
  | evicted key => exact hP.evict key hm
  | cleared => exact hP.clear hm

theorem Trail.kept {P : ParseMemo → Prop} (hP : ParseMemo.Kept P) (h : Trail m log m₁)
    (hm : P m) : P m₁ := by
  induction h with
  | start => exact hm
  | next _ he ih => exact he.kept hP ih

end MemoEvent

namespace MemoStep

open MemoEvent

mutual

def events (m : ParseMemo) : MemoStep → List MemoEvent
  | .getOrParse key text during =>
    match (m.lookup key text).1 with
    | some phrase => [.hit key text phrase]
    | none =>
      .miss key text ::
        (eventsAll (m.lookup key text).2 during ++ [.parsed key text (Phrase.parse text)])
  | .evict key => [.evicted key]
  | .evictMany keys => keys.map .evicted
  | .clear => [.cleared m.misses]
  | .get _ | .contains _ => []

def eventsAll (m : ParseMemo) : List MemoStep → List MemoEvent
  | [] => []
  | step :: rest => events m step ++ eventsAll (step.apply m).2 rest

end

/-- A run of steps comes to a memo by some events, with some steps left to do. -/
inductive ReachesBy : ParseMemo → List MemoStep → List MemoEvent → ParseMemo → List MemoStep → Prop
    where
  | start (m : ParseMemo) (steps : List MemoStep) : ReachesBy m steps [] m steps
  | step {m m' : ParseMemo} {step : MemoStep} {rest left : List MemoStep} {log : List MemoEvent} :
      ReachesBy (step.apply m).2 rest log m' left →
      ReachesBy m (step :: rest) (step.events m ++ log) m' left
  | during {m m' : ParseMemo} {key text : String} {during rest left : List MemoStep}
      {log : List MemoEvent} :
      (m.lookup key text).1 = none → ReachesBy (m.lookup key text).2 during log m' left →
      ReachesBy m (.getOrParse key text during :: rest) (.miss key text :: log) m' left

variable {m m' : ParseMemo} {key text : String} {steps left during : List MemoStep}
  {log : List MemoEvent}

theorem Reaches.exists_reachesBy (h : Reaches m steps m' left) :
    ∃ log, ReachesBy m steps log m' left := by
  induction h with
  | start m steps => exact ⟨[], .start m steps⟩
  | step _ ih =>
    obtain ⟨log, hlog⟩ := ih
    exact ⟨_, .step hlog⟩
  | during hmiss _ ih =>
    obtain ⟨log, hlog⟩ := ih
    exact ⟨_, .during hmiss hlog⟩

theorem reachesBy_eventsAll (m : ParseMemo) (steps : List MemoStep) :
    ReachesBy m steps (eventsAll m steps) (applyAll m steps).2 [] := by
  induction steps generalizing m with
  | nil => exact .start m []
  | cons step steps ih => exact .step (ih (step.apply m).2)

theorem events_of_hit {phrase : Phrase} (h : (m.lookup key text).1 = some phrase) :
    events m (.getOrParse key text during) = [.hit key text phrase] := by
  rw [events, h]

theorem events_of_miss (h : (m.lookup key text).1 = none) :
    events m (.getOrParse key text during) =
      .miss key text ::
        (eventsAll (m.lookup key text).2 during ++ [.parsed key text (Phrase.parse text)]) := by
  rw [events, h]

-- By induction on the steps: those that run while a text is parsed are inside of their step.
mutual

theorem countP_isParse_events (m : ParseMemo) (step : MemoStep) :
    (step.events m).countP isParse = (step.events m).countP isMiss := by
  cases step with
  | getOrParse key text during =>
    cases hl : (m.lookup key text).1 with
    | some phrase =>
      rw [events_of_hit hl]
      rfl
    | none =>
      have hduring := countP_isParse_eventsAll (m.lookup key text).2 during
      rw [events_of_miss hl, List.countP_cons, List.countP_cons, List.countP_append,
        List.countP_append, hduring]
      rfl
  | evictMany keys => simp [events, Function.comp_def, isParse, isMiss]
  | get | evict | clear | contains => rfl

theorem countP_isParse_eventsAll (m : ParseMemo) (steps : List MemoStep) :
    (eventsAll m steps).countP isParse = (eventsAll m steps).countP isMiss := by
  cases steps with
  | nil => rfl
  | cons step steps =>
    rw [eventsAll, List.countP_append, List.countP_append, countP_isParse_events m step,
      countP_isParse_eventsAll (step.apply m).2 steps]

end

mutual

theorem trail_events {m : ParseMemo} (hm : m.Sound) (step : MemoStep) :
    Trail m (step.events m) (step.apply m).2 := by
  cases step with
  | getOrParse key text during =>
    cases hl : (m.lookup key text).1 with
    | some phrase =>
      rw [events_of_hit hl, apply_of_hit hl]
      exact (Happens.hit hl).trail
    | none =>
      have hduring := trail_eventsAll (hm.lookup key text) during
      rw [events_of_miss hl, apply_of_miss hm hl]
      exact (Happens.miss hl).trail.append (.next hduring (.parsed _ key text))
  | get key => exact .start
  | evict key => exact (Happens.evicted m key).trail
  | evictMany keys => exact Trail.evicted m keys
  | clear => exact (Happens.cleared m).trail
  | contains key => exact .start

theorem trail_eventsAll {m : ParseMemo} (hm : m.Sound) (steps : List MemoStep) :
    Trail m (eventsAll m steps) (applyAll m steps).2 := by
  cases steps with
  | nil => exact .start
  | cons step steps =>
    exact (trail_events hm step).append (trail_eventsAll (sound_apply hm step) steps)

end

theorem ReachesBy.trail (h : ReachesBy m steps log m' left) (hm : m.Sound) : Trail m log m' := by
  induction h with
  | start => exact .start
  | @step m _ step _ _ _ _ ih => exact (trail_events hm step).append (ih (sound_apply hm step))
  | @during m _ key text _ _ _ _ hmiss _ ih =>
    exact (Happens.miss hmiss).trail.append (ih (hm.lookup key text))

end MemoStep

namespace ParseMemo

variable {m : ParseMemo} {key text : String}

theorem lookup_of_disabled (h : m.enabled = false) (key text : String) :
    m.lookup key text = (none, { m with parses := m.parses + 1 }) := by
  simp [lookup, h]

theorem lookup_of_some {phrase : Phrase} (h : (m.lookup key text).1 = some phrase) :
    m.enabled = true ∧ m.lookup key text = (some phrase, { m with hits := m.hits + 1 }) := by
  cases hen : m.enabled with
  | false =>
    rw [lookup_of_disabled hen] at h
    contradiction
  | true =>
    rw [lookup_fst, hen, if_pos rfl] at h
    simp [lookup, hen, h]

theorem lookup_of_none (hen : m.enabled = true) (h : (m.lookup key text).1 = none) :
    m.lookup key text = (none, { m with misses := m.misses + 1, parses := m.parses + 1 }) := by
  rw [lookup_fst, hen, if_pos rfl] at h
  simp [lookup, hen, h]

theorem exists_settled (m : ParseMemo) (key text : String) :
    ∃ entries, m.settled key text = { m with entries := entries } := by
  cases hp : Phrase.parse text with
  | error e => exact ⟨m.entries, settled_of_error hp⟩
  | ok phrase =>
    rw [settled_of_ok hp, keep]
    split
    · exact ⟨m.entries, rfl⟩
    · split
      · exact ⟨m.entries, rfl⟩
      · exact ⟨_, rfl⟩

structure Idle (m : ParseMemo) : Prop where
  enabled : m.enabled = false
  hits : m.hits = 0
  misses : m.misses = 0
  entries : m.entries = []

theorem kept_idle : Kept Idle where
  lookup {m} key text h := by
    rw [lookup_of_disabled h.enabled]
    exact ⟨h.enabled, h.hits, h.misses, h.entries⟩
  keep {m} key {text phrase} _ h := by
    have hkeep : m.keep key text phrase = (phrase, m) := by simp [keep, h.enabled]
    rwa [hkeep]
  evict {m} key h := ⟨h.enabled, h.hits, h.misses, by rw [evict, h.entries]; rfl⟩
  clear h := ⟨h.enabled, rfl, rfl, rfl⟩

theorem idle_new {environment : Option String} {flag : Option Bool}
    (h : (new environment flag).enabled = false) : (new environment flag).Idle :=
  ⟨h, rfl, rfl, rfl⟩

end ParseMemo

namespace MemoEvent

variable {m m' : ParseMemo} {log : List MemoEvent} {e : MemoEvent}

theorem Happens.parses_eq (h : Happens m e m') :
    m'.parses = m.parses + if e.isMiss then 1 else 0 := by
  cases h with
  | hit hl =>
    rw [(ParseMemo.lookup_of_some hl).2]
    rfl
  | miss hl =>
    cases hen : m.enabled with
    | true =>
      rw [ParseMemo.lookup_of_none hen hl]
      rfl
    | false =>
      rw [ParseMemo.lookup_of_disabled hen]
      rfl
  | parsed key text =>
    obtain ⟨entries, hsettled⟩ := m.exists_settled key text
    rw [hsettled]
    rfl
  | evicted | cleared => rfl

theorem Happens.counts (h : Happens m e m') (hen : m.enabled = true) :
    m'.hits + m'.misses =
        (if e.isClear then 0 else m.hits + m.misses + if e.isLookup then 1 else 0) ∧
      m'.misses + e.droppedMisses = m.misses + if e.isMiss then 1 else 0 := by
  cases h with
  | hit hl =>
    rw [(ParseMemo.lookup_of_some hl).2]
    exact ⟨Nat.add_right_comm .., rfl⟩
  | miss hl =>
    rw [ParseMemo.lookup_of_none hen hl]
    exact ⟨rfl, rfl⟩
  | parsed key text =>
    obtain ⟨entries, hsettled⟩ := m.exists_settled key text
    rw [hsettled]
    exact ⟨rfl, rfl⟩
  | evicted => exact ⟨rfl, rfl⟩
  | cleared => exact ⟨rfl, Nat.zero_add _⟩

theorem Happens.isMiss_eq_isLookup (h : Happens m e m') (hen : m.enabled = false) :
    e.isMiss = e.isLookup := by
  cases h with
  | hit hl =>
    have hen' := (ParseMemo.lookup_of_some hl).1
    rw [hen] at hen'
    contradiction
  | miss | parsed | evicted | cleared => rfl

theorem sinceClear_concat (log : List MemoEvent) (e : MemoEvent) :
    sinceClear (log ++ [e]) = if e.isClear then [] else e :: sinceClear log := by
  cases h : e.isClear <;> simp [sinceClear, h]

theorem allDroppedMisses_concat (log : List MemoEvent) (e : MemoEvent) :
    allDroppedMisses (log ++ [e]) = allDroppedMisses log + e.droppedMisses := by
  rw [allDroppedMisses, List.foldl_append]
  rfl

theorem Trail.parses_eq (h : Trail m log m') : m'.parses = m.parses + log.countP isMiss := by
  induction h with
  | start => rfl
  | next _ he ih => rw [he.parses_eq, ih, List.countP_append, List.countP_singleton, Nat.add_assoc]

theorem Trail.isMiss_eq_isLookup (h : Trail m log m') (hen : m.enabled = false) :
    log.countP isMiss = log.countP isLookup := by
  induction h with
  | start => rfl
  | next h he ih =>
    have hen' := h.kept (ParseMemo.kept_enabled false) hen
    simp only [List.countP_append, List.countP_singleton, ih, he.isMiss_eq_isLookup hen']

theorem Trail.counts {environment : Option String} {flag : Option Bool}
    (h : Trail (.new environment flag) log m)
    (hnew : (ParseMemo.new environment flag).enabled = true) :
    m.hits + m.misses = (sinceClear log).countP isLookup ∧
      m.misses + allDroppedMisses log = log.countP isMiss := by
  induction h with
  | start => exact ⟨rfl, rfl⟩
  | @next m₁ m₂ log e h he ih =>
    obtain ⟨hlookups, hmisses⟩ := he.counts (h.kept (ParseMemo.kept_enabled true) hnew)
    obtain ⟨ihlookups, ihmisses⟩ := ih
    constructor
    · rw [hlookups, ihlookups, sinceClear_concat]
      split
      · rfl
      · rw [List.countP_cons]
    · rw [allDroppedMisses_concat, List.countP_append, List.countP_singleton, ← ihmisses]
      omega

/-- The counts of a memo account for the events since it was made. Clearing an enabled memo starts
its counts of hits and misses anew, but a text is parsed for each miss that there ever was, be it in
vain or not yet done. A disabled memo parses at each lookup and holds nothing. -/
structure Accounts (log : List MemoEvent) (m : ParseMemo) : Prop where
  lookups : m.enabled = true → m.hits + m.misses = (sinceClear log).countP isLookup
  misses : m.enabled = true → m.parses = m.misses + allDroppedMisses log
  parses : m.parses = log.countP isMiss
  disabled : m.enabled = false →
    m.hits = 0 ∧ m.misses = 0 ∧ m.entries = [] ∧ m.parses = log.countP isLookup

theorem Trail.accounts {environment : Option String} {flag : Option Bool}
    (h : Trail (.new environment flag) log m) : Accounts log m := by
  have hparses : m.parses = log.countP isMiss := by
    rw [h.parses_eq]
    exact Nat.zero_add _
  have henabled : m.enabled = (ParseMemo.new environment flag).enabled :=
    h.kept (ParseMemo.kept_enabled _) rfl
  refine ⟨fun hen => ?_, fun hen => ?_, hparses, fun hen => ?_⟩
  · exact (h.counts (henabled ▸ hen)).1
  · rw [hparses, (h.counts (henabled ▸ hen)).2]
  · have hnew := henabled ▸ hen
    have hidle := h.kept ParseMemo.kept_idle (ParseMemo.idle_new hnew)
    exact ⟨hidle.hits, hidle.misses, hidle.entries, hparses.trans (h.isMiss_eq_isLookup hnew)⟩

end MemoEvent

namespace MemoStep

open MemoEvent

theorem parses_applyAll (environment : Option String) (flag : Option Bool) (steps : List MemoStep) :
    (applyAll (.new environment flag) steps).2.parses =
      (eventsAll (.new environment flag) steps).countP isParse := by
  have hby := reachesBy_eventsAll (.new environment flag) steps
  have haccounts := (hby.trail (ParseMemo.sound_new environment flag)).accounts
  rw [countP_isParse_eventsAll, haccounts.parses]

/-- Wherever a run from a new memo is halted, also while texts are parsed, it has come there by some
events, and the counts of the memo account for these. When all steps are done, the memo has counted
each text that was parsed. -/
theorem reaches_accounts {environment : Option String} {flag : Option Bool} {m : ParseMemo}
    {steps left : List MemoStep} (h : Reaches (.new environment flag) steps m left) :
    (∃ log, ReachesBy (.new environment flag) steps log m left) ∧
      (∀ log, ReachesBy (.new environment flag) steps log m left → Accounts log m) ∧
      (applyAll (.new environment flag) steps).2.parses =
        (eventsAll (.new environment flag) steps).countP isParse :=
  ⟨h.exists_reachesBy, fun _ hlog => (hlog.trail (ParseMemo.sound_new environment flag)).accounts,
    parses_applyAll environment flag steps⟩

theorem reaches_accounts_window :
    let steps : List MemoStep :=
      [.getOrParse "k" "old" [], .getOrParse "k" "$\x7b" [.clear, .getOrParse "j" "x" []]]
    let log : List MemoEvent := [.miss "k" "old", .parsed "k" "old" (.ok [.text "old"]),
      .miss "k" "$\x7b", .cleared 2]
    let m : ParseMemo := ⟨true, [], 0, 0, 2⟩
    let left : List MemoStep := [.getOrParse "j" "x" []]
    Reaches (.new none none) steps m left ∧ ReachesBy (.new none none) steps log m left ∧
      Accounts log m := by
  intro steps log m left
  have hold : Phrase.parse "old" = .ok [.text "old"] :=
    Phrase.parse_plain (by decide) (by decide +kernel)
  have hfirst : (apply (.new none none) (.getOrParse "k" "old" [])).2 =
      ⟨true, [("k", "old", [.text "old"])], 0, 1, 1⟩ := by
    rw [apply_of_miss (ParseMemo.sound_new none none) rfl, ParseMemo.settled_of_ok hold]
    rfl
  have hevents : events (.new none none) (.getOrParse "k" "old" []) =
      [.miss "k" "old", .parsed "k" "old" (.ok [.text "old"])] := by
    rw [events_of_miss rfl, hold]
    rfl
  have hreach : Reaches (.new none none) steps m left := by
    refine .step ?_
    rw [hfirst]
    exact .during rfl (.step (.start _ _))
  have hby : ReachesBy (.new none none) steps log m left := by
    have hsecond : ReachesBy (apply (.new none none) (.getOrParse "k" "old" [])).2
        [.getOrParse "k" "$\x7b" [.clear, .getOrParse "j" "x" []]] [.miss "k" "$\x7b", .cleared 2] m
        left := by
      rw [hfirst]
      exact .during rfl (.step (.start _ _))
    have h := ReachesBy.step hsecond
    rwa [hevents] at h
  exact ⟨hreach, hby, (reaches_accounts hreach).2.1 log hby⟩

end MemoStep

end MessageCatalog
