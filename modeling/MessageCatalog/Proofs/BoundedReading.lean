import MessageCatalog.Proofs.ReadingAgreement
import MessageCatalog.Proofs.ReadingBudgets
import MessageCatalog.Proofs.Spans

/-!
# Bounded reading

Scanning a text and reading its tokens always come to an end, on malformed input too. A round of the
scan takes a character at least, so there are no more tokens than characters. A round of a reader
takes a token at least; so rounds and nested calls are bounded by the number of tokens, and with
budgets of that size the outcome of a descent is that of the assembly.
-/
namespace MessageCatalog

namespace Scan

variable {σ τ : State} {t : Token} {ts : List Token} {text : String}

theorem State.position_le_length {cs : List Char} (h : σ.In cs) : σ.position ≤ cs.length := by
  obtain ⟨before, hbefore, hlength⟩ := h
  rw [hbefore, List.length_append]
  omega

theorem State.position_lt_of_next (h : σ.next? = some (t, τ)) : σ.position < τ.position := by
  obtain ⟨blanks, span, htaken⟩ := exists_taken h
  have hspan := List.length_pos_iff.2 htaken.nonempty
  have hposition := htaken.position_eq
  have hstop := htaken.stop_eq
  omega

theorem State.round_cases (σ : State) :
    σ.tokens = .ok [] ∨ (σ.next? = none ∧ ∃ e, σ.tokens = .error e) ∨
      ∃ t τ, σ.next? = some (t, τ) ∧ σ.tokens = τ.tokens.map (t :: ·) ∧
        σ.position < τ.position := by
  cases hahead : σ.ahead with
  | nil => exact .inl (tokens_of_ahead_nil hahead)
  | cons c rest =>
    cases hn : σ.next? with
    | none => exact .inr (.inl ⟨rfl, _, tokens_of_stuck hahead hn⟩)
    | some r =>
      obtain ⟨t, τ⟩ := r
      exact .inr (.inr ⟨t, τ, rfl, tokens_of_next hn, position_lt_of_next hn⟩)

theorem Emits.length_le (h : Emits σ ts τ) : σ.position + ts.length ≤ τ.position := by
  induction h with
  | stay σ => simp
  | next hn _ ih =>
    have hlt := State.position_lt_of_next hn
    rw [List.length_cons]
    omega

theorem Emits.position_le_length (h : Emits (.start text) ts σ) :
    σ.position ≤ text.toList.length :=
  State.position_le_length (h.exists_covering (State.start_in text)).2.1

theorem length_le_of_scan (h : Token.scan text = .ok ts) : ts.length ≤ text.toList.length := by
  rw [State.scan_eq_tokens, ← List.append_nil ts] at h
  obtain ⟨σ, hσ, -⟩ := exists_emits_of_tokens h
  exact Nat.le_trans (Nat.le_of_add_left_le hσ.length_le) hσ.position_le_length

end Scan

namespace Descent

variable {σ α : Type} {x : Descent α} {w w' : Walk} {limit depth : Nat} {ts : List Token}

/-- A reader that has read at least one token if it has a result, and none beyond the last. -/
def Progresses (x : Descent α) : Prop :=
  ∀ w a w', x w = .ok a w' → w'.cursor.tokens = w.cursor.tokens ∧
    w.cursor.place < w'.cursor.place ∧ w'.cursor.place ≤ w.cursor.tokens.length

theorem Moves.progresses {loss : Nat} {cost : Int} (h : Moves 1 cost loss x) : Progresses x := by
  intro w a w' hx
  have hm := h w
  rw [hx] at hm
  obtain ⟨hgoes, hsteps, -⟩ := hm
  have hwithin := hgoes.within
  exact ⟨hgoes.tokens_eq, by omega, by omega⟩

theorem read_progresses (limit depth : Nat) (task : Task) : Progresses (read limit depth task) :=
  Moves.progresses (read_moves limit depth task)

def outcome : EStateM.Result Halt Walk α → Option (Except ParseError α)
  | .ok a _ => some (.ok a)
  | .error (.failed e) _ => some (.error e)
  | .error .exhausted _ => none

def stop : EStateM.Result Halt Walk α → Walk
  | .ok _ w => w
  | .error _ w => w

theorem exists_of_bind_ok {β : Type} {f : α → Descent β} {b : β} (h : (x >>= f) w = .ok b w') :
    ∃ a w₁, x w = .ok a w₁ ∧ f a w₁ = .ok b w' := by
  rw [bind_apply] at h
  split at h
  · next a w₁ hx => exact ⟨a, w₁, hx, h⟩
  · cases h

theorem exists_last_round {round : σ → Descent (Round σ α)} {state : σ} {a : α}
    (h : loop round limit state w = .ok a w') :
    ∃ last w₁, round last w₁ = .ok (.done a) w' := by
  induction limit generalizing state w with
  | zero => cases h
  | succ limit ih =>
    obtain ⟨_, w₁, -, h⟩ := exists_of_bind_ok h
    obtain ⟨r, w₂, hr, h⟩ := exists_of_bind_ok h
    cases r with
    | again next => exact ih h
    | done result =>
      cases h
      exact ⟨state, w₁, hr⟩

theorem advance_ok {t : Token} (h : advance w = .ok t w') : w' = w.next := by
  cases hw : w.cursor.current with
  | none =>
    rw [advance_of_none hw] at h
    cases h
  | some u =>
    rw [advance_of_some hw] at h
    cases h
    rfl

theorem listRound_done {item : Descent Expr} {l : ItemList} {items result : List Expr}
    (h : listRound item l items w = .ok (.done result) w') :
    ∃ t, w.cursor.current = some t ∧ t.kind = l.closer ∧ w' = w.next := by
  obtain ⟨first, w₁, hfirst, h⟩ := exists_of_bind_ok h
  cases hfirst
  cases hw : w.cursor.current with
  | none =>
    rw [hw] at h
    cases h
  | some t =>
    rw [hw] at h
    dsimp only at h
    split at h
    · obtain ⟨_, _, -, h⟩ := exists_of_bind_ok h
      obtain ⟨_, _, -, h⟩ := exists_of_bind_ok h
      cases h
    · split at h
      · next hk =>
        obtain ⟨u, w₂, hu, h⟩ := exists_of_bind_ok h
        cases h
        exact ⟨t, rfl, hk, advance_ok hu⟩
      · obtain ⟨_, _, -, h⟩ := exists_of_bind_ok h
        cases h

theorem read_list_closes {l : ItemList} {items : List Expr}
    (h : read limit depth (.list l) w = .ok items w') :
    ∃ place t, w'.cursor.place = place + 1 ∧ w'.cursor.tokens[place]? = some t ∧
      t.kind = l.closer := by
  cases depth with
  | zero => cases h
  | succ depth =>
    obtain ⟨first, w₁, -, h⟩ := exists_of_bind_ok h
    obtain ⟨last, w₂, hlast⟩ := exists_last_round h
    obtain ⟨t, ht, hk, rfl⟩ := listRound_done hlast
    exact ⟨w₂.cursor.place, t, rfl, ht, hk⟩

theorem rounds_le (limit depth : Nat) (ts : List Token) :
    (stop (Phrase.descend limit depth ts)).rounds ≤ ts.length + 1 := by
  have hm := readPhrase_settles limit depth ts (.start ts)
  have hstart : (Walk.start ts).debt = 0 := rfl
  have hstop : (Walk.start ts).Goes (stop (Phrase.descend limit depth ts)) ∧
      (stop (Phrase.descend limit depth ts)).debt ≤ 1 := by
    unfold Phrase.descend
    cases hr : readPhrase limit depth ts (.start ts) with
    | ok p w =>
      rw [hr] at hm
      obtain ⟨hgoes, -, hdebt⟩ := hm
      exact ⟨hgoes, by rw [stop]; omega⟩
    | error e w =>
      rw [hr] at hm
      obtain ⟨hgoes, hdebt⟩ := hm
      exact ⟨hgoes, by rw [stop]; omega⟩
  obtain ⟨hgoes, hdebt⟩ := hstop
  have hwithin := hgoes.within
  simp only [Walk.debt, Walk.start, Cursor.ofTokens] at hdebt hwithin
  omega

theorem outcome_descend (hlimit : ts.length < limit) (hdepth : 3 * ts.length ≤ depth) :
    outcome (Phrase.descend limit depth ts) = some (Phrase.ofTokens ts) := by
  cases hr : Phrase.descend limit depth ts with
  | ok p w => rw [Phrase.ofTokens_of_descend_ok hr, outcome]
  | error e w => cases e with
    | failed e => rw [Phrase.ofTokens_of_descend_failed hr, outcome]
    | exhausted =>
      exact absurd hr (readPhrase_finishes hlimit hdepth (.start ts) (Nat.zero_le _)
        (Nat.le_of_eq (Nat.zero_add _).symm) w)

end Descent

open Descent Scan

/-- Scanner and readers always make progress. Each round of a scan takes a character at least, so
there are no more tokens than characters. A reader that has a result has read a token at least, that
of a list its closer, and none beyond the last; so has each round of its loops. All rounds together
are at most one more than the tokens, and where loops may take so many rounds and calls be nested
three deep for each token, the budgets are never the reason for a failure. -/
theorem reading_progresses :
    (∀ text ts σ, Emits (.start text) ts σ →
      ts.length ≤ σ.position ∧ σ.position ≤ text.toList.length ∧
        (σ.tokens = .ok [] ∨ (σ.next? = none ∧ ∃ e, σ.tokens = .error e) ∨
          ∃ t τ, σ.next? = some (t, τ) ∧ σ.tokens = τ.tokens.map (t :: ·) ∧
            σ.position < τ.position ∧ τ.position ≤ text.toList.length)) ∧
    (∀ text ts, Token.scan text = .ok ts → ts.length ≤ text.toList.length) ∧
    (∀ limit depth,
      (∀ task, Progresses (read limit depth task)) ∧
      (∀ l w items w', read limit depth (.list l) w = .ok items w' →
        ∃ place t, w'.cursor.place = place + 1 ∧ w'.cursor.tokens[place]? = some t ∧
          t.kind = l.closer) ∧
      (∀ l items, Progresses (listRound (read limit depth .expression) l items)) ∧
      (∀ opener properties,
        Progresses (objectRound (read limit depth .expression) opener properties)) ∧
      (∀ opener parts,
        Progresses (templateRound (fun t => read limit depth (.embedded t)) opener parts)) ∧
      (∀ nodes, Progresses (phraseRound (fun t => read limit depth (.interpolation t)) nodes)) ∧
      ∀ ts, (stop (Phrase.descend limit depth ts)).rounds ≤ ts.length + 1 ∧
        (ts.length < limit → 3 * ts.length ≤ depth →
          outcome (Phrase.descend limit depth ts) = some (Phrase.ofTokens ts))) := by
  refine ⟨fun text ts σ h => ?_, fun text ts h => length_le_of_scan h, fun limit depth => ?_⟩
  · have hlength := h.length_le
    have hposition := h.position_le_length
    refine ⟨Nat.le_of_add_left_le hlength, hposition, ?_⟩
    rcases σ.round_cases with hend | hstuck | ⟨t, τ, hn, htokens, hlt⟩
    · exact .inl hend
    · exact .inr (.inl hstuck)
    · have hnext := h.append (.next hn (.stay τ))
      exact .inr (.inr ⟨t, τ, hn, htokens, hlt, hnext.position_le_length⟩)
  · have hread := fun task => read_moves limit depth task
    exact ⟨read_progresses limit depth, fun l w items w' h => read_list_closes h,
      fun l items => Moves.progresses (listRound_advances (hread .expression) l items),
      fun opener properties =>
        Moves.progresses (objectRound_advances (hread .expression) opener properties),
      fun opener parts =>
        Moves.progresses (templateRound_advances (fun t => hread (.embedded t)) opener parts),
      fun nodes =>
        Moves.progresses (phraseRound_advances (fun t => hread (.interpolation t)) nodes),
      fun ts => ⟨rounds_le limit depth ts, outcome_descend⟩⟩

theorem reading_progresses_unclosed :
    let unclosed : List Token := [⟨.expressionStart, "$\x7b", 0⟩, ⟨.functionCall, "f", 2⟩,
      ⟨.comma, ",", 4⟩, ⟨.bracketStart, "[", 5⟩, ⟨.identifier, "a", 6⟩]
    let items : List Token := [⟨.identifier, "a", 1⟩, ⟨.bracketEnd, "]", 2⟩]
    (∃ σ, Emits (.start "$\x7bf(,[a") unclosed σ ∧ unclosed.length ≤ σ.position) ∧
    (∃ ts, Token.scan "$\x7bf(,[a" = .ok ts ∧ ts.length ≤ 7) ∧
    outcome (Phrase.descend 6 15 unclosed) =
      some (.error (.syntaxError ⟨.unclosedArray, 5⟩)) ∧
    ∃ w, read 6 15 (.list (.array 0)) (.start items) = .ok [.identifier "a"] w ∧
      w.cursor.place ≤ 2 ∧ ∃ place t, w.cursor.place = place + 1 ∧
        w.cursor.tokens[place]? = some t ∧ t.kind = .bracketEnd := by
  intro unclosed items
  have he : Emits (.start "$\x7bf(,[a") unclosed ⟨[.bracket, .call, .interpolation], 7, []⟩ := by
    decide +kernel
  have hscan := tokens_of_emits he rfl
  obtain ⟨hround, hlength, hread⟩ := reading_progresses
  obtain ⟨hprogress, hcloses, -, -, -, -, hdescend⟩ := hread 6 15
  have hlist : read 6 15 (.list (.array 0)) (.start items) = .ok [.identifier "a"] _ := rfl
  exact ⟨⟨_, he, (hround _ _ _ he).1⟩, ⟨_, hscan, hlength _ _ hscan⟩,
    (hdescend unclosed).2 (by decide) (by decide),
    _, hlist, (hprogress _ _ _ _ hlist).2.2, hcloses _ _ _ _ hlist⟩

end MessageCatalog
