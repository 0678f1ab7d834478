import MessageCatalog.Proofs.NumberTokens
import MessageCatalog.Proofs.OpenConstructs
import MessageCatalog.Proofs.Relocation
import MessageCatalog.Proofs.RoundTrip
import MessageCatalog.Proofs.Spans

/-!
# Located errors

A text that is no phrase has a syntax error at one of its characters, or a number in it is too long
to be converted. The scanner stops only in an expression, at a character that is no blank. The
assembly reports an error at the position of a token, which follows from positions being carried
along unread: if the tokens are moved, the error is moved in the same way. Nothing else can go
wrong, since escapes are always known and numbers have a value up to the digit limit.
-/
namespace MessageCatalog
open Text

namespace Scan

variable {σ τ : State} {e : SyntaxError}

theorem State.exists_stuck_of_error (h : σ.tokens = .error e) :
    ∃ ts τ c rest, Emits σ ts τ ∧ τ.next? = none ∧ τ.ahead = c :: rest ∧
      e = ⟨.unexpectedCharacter c (Mode.ofOpen τ.opened), τ.aheadPosition⟩ := by
  -- There are no tokens to induct on, but each step leaves less of the text.
  induction hn : σ.rest.length using Nat.strongRecOn generalizing σ with
  | ind n ih =>
    cases ha : σ.ahead with
    | nil =>
      rw [tokens_of_ahead_nil ha] at h
      contradiction
    | cons c rest =>
      cases hnext : σ.next? with
      | none =>
        rw [tokens_of_stuck ha hnext] at h
        cases h
        exact ⟨[], σ, c, rest, .stay σ, hnext, ha, rfl⟩
      | some s =>
        obtain ⟨t, τ⟩ := s
        obtain ⟨blanks, span, htaken⟩ := exists_taken hnext
        have hshorter := hn ▸ htaken.length_lt
        rw [tokens_of_next hnext] at h
        cases hτ : τ.tokens with
        | ok us =>
          rw [hτ] at h
          contradiction
        | error e' =>
          rw [hτ] at h
          cases h
          obtain ⟨ts, υ, d, ds, hts, hstuck, hahead, he⟩ := ih _ hshorter hτ rfl
          exact ⟨t :: ts, υ, d, ds, .next hnext hts, hstuck, hahead, he⟩

theorem exists_textLexeme (inTemplate : Bool) (c : Char) (cs : List Char) :
    ∃ l, textLexeme? inTemplate (c :: cs) = some l := by
  unfold textLexeme?
  split
  · contradiction
  · exact ⟨_, rfl⟩
  · split <;> exact ⟨_, rfl⟩

theorem State.mode_of_stuck {c : Char} {rest : List Char} (h : σ.next? = none)
    (ha : σ.ahead = c :: rest) : Mode.ofOpen σ.opened = .expression := by
  have hnone : lexeme? σ.opened (c :: rest) = none := by simpa [next?, ha] using h
  unfold lexeme? at hnone
  split at hnone
  · obtain ⟨l, hl⟩ := exists_textLexeme false c rest
    rw [hl] at hnone
    contradiction
  · obtain ⟨l, hl⟩ := exists_textLexeme true c rest
    rw [hl] at hnone
    contradiction
  · next opener below hne ho =>
    rw [ho]
    cases opener with
    | template => exact (hne rfl).elim
    | _ => rfl

theorem State.isBlank_of_ahead {c : Char} {rest : List Char}
    (hmode : Mode.ofOpen σ.opened = .expression) (ha : σ.ahead = c :: rest) : isBlank c = false := by
  have hdrop : σ.rest.dropWhile isBlank = c :: rest := by
    rw [← ha, ahead, skip, hmode]
    rfl
  have hhead := List.head_dropWhile_not isBlank (l := σ.rest) (by simp [hdrop])
  simpa [hdrop] using hhead

theorem State.In.getElem?_aheadPosition {text : List Char} (h : σ.In text) {c : Char}
    {rest : List Char} (ha : σ.ahead = c :: rest) : text[σ.aheadPosition]? = some c := by
  obtain ⟨before, htext, hbefore⟩ := h
  obtain ⟨blanks, hrest, -⟩ := exists_blanks_of_skip σ.opened σ.rest
  have hrest : σ.rest = blanks ++ c :: rest := hrest.trans (congrArg (blanks ++ ·) ha)
  have hposition : σ.aheadPosition = (before ++ blanks).length := by
    rw [aheadPosition, ha, hrest]
    simp only [List.length_append]
    omega
  rw [hposition, htext, hrest, ← List.append_assoc, List.getElem?_append_right (Nat.le_refl _),
    Nat.sub_self]
  rfl

theorem scan_error {text : String} (h : Token.scan text = .error e) :
    ∃ c, e.fault = .unexpectedCharacter c .expression ∧ text.toList[e.position]? = some c ∧
      isBlank c = false := by
  rw [State.scan_eq_tokens] at h
  obtain ⟨ts, σ, c, rest, hσ, hstuck, ha, rfl⟩ := State.exists_stuck_of_error h
  obtain ⟨-, hin, -⟩ := hσ.exists_covering (State.start_in text)
  have hmode := State.mode_of_stuck hstuck ha
  exact ⟨c, by rw [hmode], hin.getElem?_aheadPosition ha, State.isBlank_of_ahead hmode ha⟩

end Scan

namespace Phrase
open Scan

theorem exists_token_of_error {ts : List Token} {e : SyntaxError}
    (h : ofTokens ts = .error (.syntaxError e)) : ∃ t ∈ ts, e.position = t.position := by
  have hts : ts ≠ [] := by
    rintro rfl
    contradiction
  -- Positions of tokens stay as they are and all others become the position of some token, so that
  -- the tokens and with them the error stay where they are.
  let place (p : Nat) : Nat := if p ∈ ts.map Token.position then p else (ts.head hts).position
  have hplace : ∀ p, place p ∈ ts.map Token.position := by
    intro p
    by_cases hp : p ∈ ts.map Token.position
    · rwa [show place p = p from if_pos hp]
    · rw [show place p = (ts.head hts).position from if_neg hp]
      exact List.mem_map_of_mem (List.head_mem hts)
  have hsame : ts.map (Token.relocate place) = ts := by
    refine (List.map_congr_left fun t ht => ?_).trans (List.map_id ts)
    have hp : place t.position = t.position := if_pos (List.mem_map_of_mem ht)
    rw [Token.relocate, hp]
    rfl
  have hmoved := ofTokens_relocate place ts
  rw [hsame, h] at hmoved
  have hposition : e.position = place e.position := by
    injection hmoved with herror
    injection herror with he
    exact congrArg SyntaxError.position he
  obtain ⟨t, ht, hp⟩ := List.mem_map.1 (hplace e.position)
  exact ⟨t, ht, by rw [hposition, hp]⟩

theorem numberValue?_eq_none_iff {ts : List Token} {σ τ : State} (h : Emits σ ts τ) {t : Token}
    (ht : t ∈ ts) (hk : t.kind = .number) :
    Assembly.numberValue? t.value = none ↔ Number.IsOverlong t.value := by
  obtain ⟨mode, span, rest, hspells⟩ := h.spells t ht
  exact Assembly.numberValue?_eq_none_iff (hspells.isNumeral hk)

theorem exists_overlong {ts : List Token} {σ τ : State} (h : Emits σ ts τ) {value : String}
    (hp : ofTokens ts = .error (.malformedNumber value)) :
    ∃ t ∈ ts, t.kind = .number ∧ t.value = value ∧ Number.IsOverlong value := by
  rcases ofTokens_error hp with hr | ⟨s, f, -, -, he⟩
  · obtain ⟨pre, t, post, s, rfl, -, hstep⟩ := Assembly.exists_step_of_run_error hr
    cases Assembly.step_refusal hstep with
    | malformed hk hnone =>
      have hmem : t ∈ pre ++ t :: post := by simp
      exact ⟨t, hmem, hk, rfl, (numberValue?_eq_none_iff h hmem hk).1 hnone⟩
  · contradiction

/-- A text is a phrase, or it has a syntax error at one of its characters, or else a number that is
too long. -/
inductive Verdict (text : String) : Except ParseError Phrase → Prop where
  | phrase (p : Phrase) : Verdict text (.ok p)
  | located (e : SyntaxError) : e.position < text.length → Verdict text (.error (.syntaxError e))
  | overlong {ts : List Token} {σ : State} {t : Token} : Emits (.start text) ts σ → t ∈ ts →
      t.kind = .number → Number.IsOverlong t.value → Verdict text (.error (.malformedNumber t.value))

theorem verdict_parse (text : String) : Verdict text (parse text) := by
  cases hscan : Token.scan text with
  | error e =>
    rw [parse, hscan]
    refine .located e ?_
    obtain ⟨c, -, hc, -⟩ := scan_error hscan
    obtain ⟨hlt, -⟩ := List.getElem?_eq_some_iff.1 hc
    exact hlt
  | ok ts =>
    rw [parse_eq_ofTokens hscan]
    cases hp : ofTokens ts with
    | ok p => exact .phrase p
    | error e =>
      cases e with
      | malformedNumber value =>
        rw [State.scan_eq_tokens, ← List.append_nil ts] at hscan
        obtain ⟨σ, hσ, -⟩ := exists_emits_of_tokens hscan
        obtain ⟨t, ht, hk, rfl, hlong⟩ := exists_overlong hσ hp
        exact .overlong hσ ht hk hlong
      | syntaxError e =>
        obtain ⟨t, ht, hposition⟩ := exists_token_of_error hp
        exact .located e (hposition ▸ position_lt_of_scan hscan t ht)

/-- Every text is a phrase, or has a syntax error at one of its characters, or has a number without
a point that has more digits than the limit. The escapes of quoted text are always known, all other
number tokens have a value, and the scanner fails only in an expression, at a character that is no
blank. -/
theorem parse_error_located (text : String) :
    Verdict text (parse text) ∧
    (∀ quote raw rest, IsQuote quote → IsQuoted quote raw → ∃ value, decode? raw = some value ∧
      splitQuoted quote (raw ++ quote :: rest) = some (value, rest)) ∧
    (∀ ts σ, Emits (.start text) ts σ → ∀ t ∈ ts, t.kind = .number →
      (Assembly.numberValue? t.value = none ↔ Number.IsOverlong t.value)) ∧
    (∀ e, Token.scan text = .error e → ∃ c, e.fault = .unexpectedCharacter c .expression ∧
      text.toList[e.position]? = some c ∧ isBlank c = false) := by
  refine ⟨verdict_parse text, fun quote raw rest hq hraw => ?_,
    fun ts σ hσ t ht hk => numberValue?_eq_none_iff hσ ht hk, fun e he => scan_error he⟩
  obtain ⟨value, hvalue⟩ := hraw.exists_decode
  exact ⟨value, hvalue, splitQuoted_of_isQuoted hq hraw hvalue rest⟩

theorem parse_error_located_unclosed :
    let text := "$\x7bf(\u0661.\u0662, '\\n'"
    let ts : List Token := [⟨.expressionStart, "$\x7b", 0⟩, ⟨.functionCall, "f", 2⟩,
      ⟨.number, "\u0661.\u0662", 4⟩, ⟨.comma, ",", 7⟩, ⟨.string, "\n", 9⟩]
    Token.scan text = .ok ts ∧
      parse text = .error (.syntaxError ⟨.unclosedCall, 2⟩) ∧ 2 < text.length ∧
      (∃ v, Assembly.numberValue? "\u0661.\u0662" = some v) ∧
      (∃ value, decode? ['\\', 'n'] = some value ∧
        splitQuoted '\'' ['\\', 'n', '\''] = some (value, [])) ∧
      ∃ e c, Token.scan "$\x7b ?" = .error e ∧ e.fault = .unexpectedCharacter c .expression ∧
        isBlank c = false := by
  intro text ts
  have he : Emits (.start text) ts ⟨[.call, .interpolation], 13, []⟩ := by decide +kernel
  have hscan : Token.scan text = .ok ts := tokens_of_emits he rfl
  obtain ⟨hlocated, hescape, hnumber, -⟩ := parse_error_located text
  have hshort : ¬ Number.IsOverlong "\u0661.\u0662" := by simp [Number.IsOverlong]
  have hiff := hnumber _ _ he ⟨.number, "\u0661.\u0662", 4⟩ (by simp [ts]) rfl
  obtain ⟨v, hv⟩ := Option.ne_none_iff_exists'.1 (mt hiff.1 hshort)
  have hparse : parse text = .error (.syntaxError ⟨.unclosedCall, 2⟩) := by
    rw [parse_eq_ofTokens hscan]
    simp [ts, ofTokens, Assembly.run, Assembly.start, Assembly.step, Assembly.textOr,
      Assembly.expression, TokenKind.isLiteral, Assembly.literalValue, hv, Except.map,
      Assembly.push, Assembly.deliver, Assembly.update, ListEnd.atComma, Assembly.endFault?]
  have hposition : 2 < text.length := by
    rw [hparse] at hlocated
    cases hlocated with
    | located e hlt => exact hlt
  have hquoted : IsQuoted '\'' ['\\', 'n'] := .escape (by decide) .nil
  have hstuck : Emits (.start "$\x7b ?") [⟨.expressionStart, "$\x7b", 0⟩]
      ⟨[.interpolation], 2, [' ', '?']⟩ := by decide +kernel
  have herror : Token.scan "$\x7b ?" = .error ⟨.unexpectedCharacter '?' .expression, 3⟩ := by
    rw [State.scan_eq_tokens, hstuck.tokens_eq, State.tokens_of_stuck rfl (by decide +kernel)]
    rfl
  obtain ⟨c, hfault, -, hblank⟩ := (parse_error_located "$\x7b ?").2.2.2 _ herror
  exact ⟨hscan, hparse, hposition, ⟨v, hv⟩,
    hescape _ _ [] (.inr rfl) hquoted, _, c, herror, hfault, hblank⟩

/-- An integer beyond the digit limit is refused without a position. -/
theorem parse_error_located_overlong :
    let text := interpolated (10 ^ Number.maxDigits)
    (∀ p, parse text ≠ .ok p) ∧ ∀ e, parse text ≠ .error (.syntaxError e) := by
  intro text
  rw [parse_interpolated Number.hasText_pow]
  simp

end Phrase

end MessageCatalog
