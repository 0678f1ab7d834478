import MessageCatalog.Proofs.Grammar

/-!
# Correct prefixes

The tokens that have been read so far are always the beginning of some phrase, since whatever is
open can be completed. So a token that is refused is the first one that is wrong: the tokens before
it are the beginning of a phrase, and with it they are not. If no token is wrong, the tokens have
run out, and the error is at the last of them or where a construct begins that is still open.
-/
namespace MessageCatalog

namespace Construct

def position : Construct → Nat
  | .interpolation p _ | .call p _ _ _ | .array p _ _ | .object p _ _ | .template p _ => p

end Construct

theorem exists_completesAfter (stack : List Construct) :
    ∃ ks, CompletesAfter stack ks ∧ .number ∉ ks := by
  induction stack with
  | nil => exact ⟨[], .phraseEmpty, List.not_mem_nil⟩
  | cons c below ih =>
    obtain ⟨ks, hks, hnumber⟩ := ih
    refine ⟨c.opener.closer :: ks, ?_, ?_⟩
    · cases c with
      | interpolation => exact ⟨ks, rfl, hks⟩
      | call | array => exact ⟨[], ks, rfl, .itemsEmpty, hks⟩
      | object => exact ⟨[], ks, rfl, .propertiesEmpty, hks⟩
      | template => exact ⟨[], ks, rfl, .partsEmpty, hks⟩
    · cases c <;> simpa [Construct.opener, Opener.closer] using hnumber

theorem exists_completes (stack : List Construct) : ∃ ks, Completes stack ks ∧ .number ∉ ks := by
  obtain ⟨ks, hks, hnumber⟩ := exists_completesAfter stack
  unfold Completes
  split
  iterate 2
    exact ⟨.identifier :: ks, ⟨[.identifier], ks, rfl, .identifier, hks⟩, by simpa using hnumber⟩
  exact ⟨ks, hks, hnumber⟩

/-- The tokens begin some phrase. -/
def Viable (ts : List Token) : Prop := ∃ more p, Phrase.ofTokens (ts ++ more) = .ok p

namespace Assembly

variable {s s' : Assembly} {t : Token} {ts pre : List Token}

theorem viable_of_run (h : start.run ts = .ok s) : Viable ts := by
  obtain ⟨ks, hks, hnumber⟩ := exists_completes s.stack
  let more : List Token := ks.map fun k => ⟨k, "", 0⟩
  have hc : ∀ t ∈ more, Converts t := by
    intro t ht hk
    obtain ⟨k, hmem, rfl⟩ := List.mem_map.1 ht
    exact absurd (hk ▸ hmem) hnumber
  have hkinds : more.map Token.kind = ks := by simp [more, Function.comp_def]
  obtain ⟨⟨p, stack⟩, hrun, rfl⟩ := (run_completes hc).2 (hkinds ▸ hks)
  refine ⟨more, ?_⟩
  by_cases hnil : ts ++ more = []
  · exact ⟨[.text ""], by rw [hnil]; rfl⟩
  · exact ⟨p, (Phrase.ofTokens_eq_ok_iff hnil).2 (by rw [run_append_ok h, hrun])⟩

theorem not_viable_of_step_error {e : ParseError} (h : start.run pre = .ok s)
    (hstep : s.step t = .error e) : ¬ Viable (pre ++ [t]) := by
  rintro ⟨more, p, hp⟩
  have hne : pre ++ [t] ++ more ≠ [] := by simp
  rw [Phrase.ofTokens_eq_ok_iff hne, List.append_assoc, run_append_ok h] at hp
  obtain ⟨s', hs', -⟩ := exists_step_of_run_ok hp
  rw [hstep] at hs'
  contradiction

def positions (s : Assembly) : List Nat := s.stack.map Construct.position

end Assembly

section OpenedBy

variable {α β : Type} {x : α} {opened : List α} {kind : TokenKind}

def openedBy (x : α) (opened : List α) (kind : TokenKind) : List α :=
  if kind.opens?.isSome then x :: opened else if kind.closes then opened.tail else opened

theorem openedBy_of_isFlat (h : kind.isFlat = true) : openedBy x opened kind = opened := by
  simp only [TokenKind.isFlat, Bool.and_eq_true, Option.isNone_iff_eq_none, Bool.not_eq_true'] at h
  simp [openedBy, h.1, h.2]

theorem map_openedBy (f : α → β) :
    (openedBy x opened kind).map f = openedBy (f x) (opened.map f) kind := by
  unfold openedBy
  split
  · rfl
  · split
    · exact List.map_tail
    · rfl

end OpenedBy

namespace Assembly

variable {s s' : Assembly} {t : Token} {ts : List Token}

theorem positions_deliver (s : Assembly) (e : Expr) : (s.deliver e).positions = s.positions := by
  unfold deliver
  split <;> simp_all [positions, update, Construct.position]

theorem positions_close (s : Assembly) (e : Expr) : (s.close e).positions = s.positions.tail := by
  rw [close, positions_deliver]
  exact List.map_tail

theorem positions_update {c d : Construct} {below : List Construct} (hs : s.stack = c :: below)
    (h : d.position = c.position) : (s.update d).positions = s.positions := by
  simp [positions, update, hs, h]

theorem expression_positions (h : s.expression t = .ok s') :
    s'.positions = openedBy t.position s.positions t.kind := by
  unfold expression at h
  split at h
  case h_1 hk =>
    cases h
    rw [positions_deliver, hk, openedBy_of_isFlat rfl]
  case h_6 =>
    split at h
    · next hl =>
      cases hv : literalValue t with
      | error e => simp [hv, Except.map] at h
      | ok v =>
        simp only [hv, Except.map, Except.ok.injEq] at h
        rw [← h, positions_deliver, openedBy_of_isFlat (TokenKind.isFlat_of_isLiteral hl)]
    · contradiction
  all_goals
    next hk =>
    cases h
    rw [hk]
    rfl

theorem textOr_positions {other : Except ParseError Assembly} (h : s.textOr t other = .ok s') :
    s'.positions = openedBy t.position s.positions t.kind ∨ other = .ok s' := by
  unfold textOr at h
  split at h
  · next hk =>
    cases h
    exact .inl (by rw [positions_deliver, hk, openedBy_of_isFlat rfl])
  · next hk =>
    cases h
    exact .inl (by rw [hk]; rfl)
  · exact .inr h

theorem step_items_positions (l : ItemList) {items : List Expr} {last : ListEnd}
    {below : List Construct} (hs : s.stack = l.construct items last :: below)
    (h : s.step t = .ok s') : s'.positions = openedBy t.position s.positions t.kind := by
  rw [step_items l hs] at h
  split at h
  · next hk =>
    cases h
    rw [positions_update hs (by cases l <;> rfl), hk, openedBy_of_isFlat rfl]
  · split at h
    · next hk =>
      cases h
      rw [positions_close, hk]
      cases l <;> rfl
    · exact expression_positions h

theorem step_positions (h : s.step t = .ok s') :
    s'.positions = openedBy t.position s.positions t.kind := by
  cases hs : s.stack with
  | nil =>
    have hp : s.positions = [] := by rw [positions, hs]; rfl
    simp only [step, hs] at h
    rcases textOr_positions h with hpositions | ho
    · exact hpositions
    · split at ho
      iterate 2
        next hk =>
        cases ho
        rw [hk, hp]
        rfl
      contradiction
  | cons c below =>
    cases c with
    | interpolation p e =>
      cases e with
      | none =>
        simp only [step, hs] at h
        exact expression_positions h
      | some e =>
        simp only [step, hs] at h
        split at h
        · next hk =>
          cases h
          rw [positions_close, hk]
          rfl
        · split at h <;> contradiction
        · contradiction
    | call p callee items last => exact step_items_positions (.call p callee) hs h
    | array p items last => exact step_items_positions (.array p) hs h
    | object p properties pending =>
      cases pending with
      | some key =>
        simp only [step, hs] at h
        exact expression_positions h
      | none =>
        simp only [step, hs] at h
        split at h
        · next hk =>
          cases h
          rw [hk, openedBy_of_isFlat rfl]
        · next hk =>
          cases h
          rw [positions_close, hk]
          rfl
        · contradiction
        · next hk =>
          cases h
          refine (positions_update hs rfl).trans ?_
          rw [hk, openedBy_of_isFlat rfl]
        · contradiction
    | template p parts =>
      simp only [step, hs] at h
      rcases textOr_positions h with hpositions | ho
      · exact hpositions
      · split at ho
        · next hk =>
          cases ho
          rw [positions_close, hk]
          rfl
        · contradiction

end Assembly

/-- The tokens that have opened a construct that is still open, the innermost first. -/
def Token.unclosed (ts : List Token) : List Token :=
  ts.foldl (fun opened t => openedBy t opened t.kind) []

namespace Assembly

variable {s s' : Assembly} {ts : List Token}

theorem run_positions {opened : List Token} (hs : s.positions = opened.map Token.position)
    (h : s.run ts = .ok s') :
    s'.positions =
      (ts.foldl (fun opened t => openedBy t opened t.kind) opened).map Token.position := by
  induction ts generalizing s opened with
  | nil =>
    cases h
    exact hs
  | cons t ts ih =>
    obtain ⟨s₁, hstep, hrun⟩ := exists_step_of_run_ok h
    refine ih ?_ hrun
    rw [step_positions hstep, hs, map_openedBy]

end Assembly

namespace SyntaxFault

def isEnd : SyntaxFault → Bool
  | .unexpectedEnd | .unterminatedInterpolation | .unterminatedInTemplate => true
  | .unclosedCall | .unclosedArray | .unclosedObject | .unclosedTemplate => true
  | _ => false

end SyntaxFault

namespace Assembly

variable {s : Assembly} {ts : List Token} {f : SyntaxError}

theorem endFault_spec {lastPosition : Nat} (h : s.endFault? lastPosition = some f) :
    f.fault.isEnd = true ∧ (f.position = lastPosition ∨ f.position ∈ s.positions) := by
  unfold endFault? at h
  split at h
  case h_1 => contradiction
  case h_4 hs =>
    cases h
    refine ⟨?_, .inr (by simp [positions, hs, Construct.position])⟩
    split <;> rfl
  case h_2 | h_3 =>
    cases h
    exact ⟨rfl, .inl rfl⟩
  all_goals
    next hs =>
    cases h
    exact ⟨rfl, .inr (by simp [positions, hs, Construct.position])⟩

end Assembly

open Assembly

theorem Token.exists_lastPosition {ts : List Token} (h : ts ≠ []) :
    ∃ t, ts.getLast? = some t ∧ Token.lastPosition ts = t.position := by
  have hlast := List.getLast?_eq_some_getLast h
  exact ⟨ts.getLast h, hlast, by rw [lastPosition, hlast]; rfl⟩

/-- Tokens that are no phrase have their error at the first of them that is wrong: with the tokens
before it a phrase may begin, with it none does. If there is none, the tokens are the beginning of a
longer phrase, and the error is that they end, at an opener of what is still open or at the last of
them. -/
theorem ofTokens_error_blames {ts : List Token} (hc : ∀ t ∈ ts, Converts t) {e : ParseError}
    (h : Phrase.ofTokens ts = .error e) :
    (∃ pre t post fault, ts = pre ++ t :: post ∧ Viable pre ∧ ¬ Viable (pre ++ [t]) ∧
      fault.isEnd = false ∧ e = .syntaxError ⟨fault, t.position⟩) ∨
    (∃ more p, more ≠ [] ∧ Phrase.ofTokens (ts ++ more) = .ok p) ∧
      ∃ fault t, fault.isEnd = true ∧ (t ∈ Token.unclosed ts ∨ ts.getLast? = some t) ∧
        e = .syntaxError ⟨fault, t.position⟩ := by
  rcases Phrase.ofTokens_error h with hrun | ⟨s, f, hrun, hf, rfl⟩
  · obtain ⟨pre, t, post, s, rfl, hpre, hstep⟩ := exists_step_of_run_error hrun
    have hviable := viable_of_run hpre
    have hwrong := not_viable_of_step_error hpre hstep
    cases step_refusal hstep with
    | malformed hk hnone =>
      have hsome := hc t (by simp) hk
      simp [hnone] at hsome
    | unexpected | shorthand | templateClosed =>
      exact .inl ⟨pre, t, post, _, rfl, hviable, hwrong, rfl, rfl⟩
  · refine .inr ⟨?_, ?_⟩
    · obtain ⟨more, p, hp⟩ := viable_of_run hrun
      refine ⟨more, p, ?_, hp⟩
      rintro rfl
      rw [List.append_nil, h] at hp
      contradiction
    · obtain ⟨hend, hposition⟩ := endFault_spec hf
      have hts : ts ≠ [] := by
        rintro rfl
        contradiction
      rcases hposition with hlast | hopen
      · obtain ⟨t, ht, hposition⟩ := Token.exists_lastPosition hts
        exact ⟨f.fault, t, hend, .inr ht, by rw [← hposition, ← hlast]⟩
      · have hpositions : s.positions = (Token.unclosed ts).map Token.position :=
          @run_positions .start s ts [] rfl hrun
        rw [hpositions] at hopen
        obtain ⟨t, ht, hposition⟩ := List.mem_map.1 hopen
        exact ⟨f.fault, t, hend, .inl ht, by rw [hposition]⟩

theorem ofTokens_error_blames_bracket :
    let wrong : List Token := [⟨.expressionStart, "$\x7b", 0⟩, ⟨.functionCall, "f", 2⟩,
      ⟨.identifier, "a", 4⟩, ⟨.bracketEnd, "]", 5⟩, ⟨.expressionEnd, "\x7d", 6⟩]
    let cut : List Token := [⟨.expressionStart, "$\x7b", 0⟩, ⟨.bracketStart, "[", 2⟩,
      ⟨.templateStart, "`", 3⟩, ⟨.string, "b", 4⟩]
    (∀ t ∈ wrong, Converts t) ∧ (∀ t ∈ cut, Converts t) ∧
      (∃ pre t post, wrong = pre ++ t :: post ∧ Viable pre ∧ ¬ Viable (pre ++ [t]) ∧
        t.position = 5) ∧
      Phrase.ofTokens cut = .error (.syntaxError ⟨.unclosedTemplate, 3⟩) ∧
      (∃ more p, more ≠ [] ∧ Phrase.ofTokens (cut ++ more) = .ok p) ∧
      ∃ t ∈ Token.unclosed cut, t.position = 3 := by
  intro wrong cut
  have hwrong : ∀ t ∈ wrong, Converts t := by simp [wrong, Converts]
  have hcut : ∀ t ∈ cut, Converts t := by simp [cut, Converts]
  have hbracket : Phrase.ofTokens wrong =
      .error (.syntaxError ⟨.unexpectedToken .bracketEnd "]", 5⟩) := rfl
  have hopen : Phrase.ofTokens cut = .error (.syntaxError ⟨.unclosedTemplate, 3⟩) := rfl
  refine ⟨hwrong, hcut, ?_, hopen, ?_, ⟨.templateStart, "`", 3⟩, by decide, rfl⟩
  · rcases ofTokens_error_blames hwrong hbracket with ⟨pre, t, post, fault, hts, hpre, ht, -, he⟩ |
      ⟨-, fault, t, hend, -, he⟩
    · simp only [ParseError.syntaxError.injEq, SyntaxError.mk.injEq] at he
      exact ⟨pre, t, post, hts, hpre, ht, he.2.symm⟩
    · simp only [ParseError.syntaxError.injEq, SyntaxError.mk.injEq] at he
      rw [← he.1] at hend
      contradiction
  · rcases ofTokens_error_blames hcut hopen with ⟨pre, t, post, fault, -, -, -, hend, he⟩ | ⟨hmore, -⟩
    · simp only [ParseError.syntaxError.injEq, SyntaxError.mk.injEq] at he
      rw [← he.1] at hend
      contradiction
    · exact hmore

end MessageCatalog
