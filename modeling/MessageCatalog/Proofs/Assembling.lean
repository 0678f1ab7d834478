import MessageCatalog.Phrase.Descent

/-!
# Assembling step by step

What reading one token does to an assembly: it hands an expression to the innermost construct, opens
a construct, changes the innermost one, or closes it, and it closes only what it is the closing
token of. What holds along whole runs is derived from these moves.
-/
namespace MessageCatalog

namespace TokenKind

def isFlat (kind : TokenKind) : Bool := kind.opens?.isNone && !kind.closes

theorem isFlat_of_isLiteral {kind : TokenKind} (h : kind.isLiteral = true) : kind.isFlat = true := by
  cases kind <;> first | rfl | contradiction

end TokenKind

def Opener.closer : Opener → TokenKind
  | .interpolation => .expressionEnd
  | .call => .parenEnd
  | .bracket => .bracketEnd
  | .brace => .braceEnd
  | .template => .templateEnd

theorem openAfter_of_isFlat {kind : TokenKind} (h : kind.isFlat = true) (opened : List Opener) :
    openAfter opened kind = opened := by
  simp only [TokenKind.isFlat, Bool.and_eq_true, Option.isNone_iff_eq_none,
    Bool.not_eq_true'] at h
  simp [openAfter, h.1, h.2]

theorem openAfter_closer (o : Opener) (opened : List Opener) :
    openAfter opened o.closer = opened.tail := by
  cases o <;> rfl

def ItemList.construct : ItemList → List Expr → ListEnd → Construct
  | .call p callee => .call p callee
  | .array p => .array p

namespace Assembly

variable {s s' : Assembly} {t : Token}

@[simp] theorem stack_push (s : Assembly) (c : Construct) : (s.push c).stack = c :: s.stack := rfl

@[simp] theorem update_push (s : Assembly) (c d : Construct) : (s.push c).update d = s.push d := rfl

@[simp] theorem close_push (s : Assembly) (c : Construct) (e : Expr) :
    (s.push c).close e = s.deliver e := rfl

theorem update_self {c : Construct} {below : List Construct} (h : s.stack = c :: below) :
    s.update c = s := by
  cases s
  simp_all [update]

theorem deliver_push_items (l : ItemList) (items : List Expr) (last : ListEnd) (e : Expr) :
    (s.push (l.construct items last)).deliver e = s.push (l.construct (items ++ [e]) .item) := by
  cases l <;> rfl

theorem step_items (l : ItemList) {items : List Expr} {last : ListEnd} {below : List Construct}
    (hs : s.stack = l.construct items last :: below) :
    s.step t =
      if t.kind = .comma then .ok (s.update (l.construct (last.atComma items) .comma))
      else if t.kind = l.closer then .ok (s.close (l.close (last.atClose items)))
      else s.expression t := by
  cases l <;> simp only [ItemList.construct] at hs <;> simp only [step, hs] <;>
    cases t.kind <;> rfl

theorem run_append (s : Assembly) (ts us : List Token) :
    s.run (ts ++ us) = (s.run ts).bind fun s' => s'.run us := by
  induction ts generalizing s with
  | nil => rfl
  | cons t ts ih =>
    simp only [List.cons_append, run]
    cases s.step t with
    | error e => rfl
    | ok s' => exact ih s'

theorem run_append_ok {ts us : List Token} (h : s.run ts = .ok s') :
    s.run (ts ++ us) = s'.run us := by
  rw [run_append, h]
  rfl

theorem exists_run_of_append {ts us : List Token} (h : s.run (ts ++ us) = .ok s') :
    ∃ s₁, s.run ts = .ok s₁ ∧ s₁.run us = .ok s' := by
  cases hr : s.run ts with
  | error e =>
    rw [run_append, hr] at h
    contradiction
  | ok s₁ => exact ⟨s₁, rfl, by rw [← run_append_ok hr, h]⟩

theorem run_cons_ok {ts : List Token} (h : s.step t = .ok s') : s.run (t :: ts) = s'.run ts := by
  rw [run, h]

theorem exists_step_of_run_ok {ts : List Token} (h : s.run (t :: ts) = .ok s') :
    ∃ s₁, s.step t = .ok s₁ ∧ s₁.run ts = .ok s' := by
  cases hs : s.step t with
  | error e => simp [run, hs] at h
  | ok s₁ => exact ⟨s₁, rfl, by rw [← run_cons_ok hs, h]⟩

theorem run_preserves {P : Assembly → Prop} {ts : List Token}
    (hstep : ∀ t ∈ ts, ∀ s s', P s → s.step t = .ok s' → P s') (hs : P s)
    (h : s.run ts = .ok s') : P s' := by
  induction ts generalizing s with
  | nil =>
    cases h
    exact hs
  | cons t ts ih =>
    obtain ⟨s₁, hs₁, hrun⟩ := exists_step_of_run_ok h
    obtain ⟨ht, hts⟩ := List.forall_mem_cons.1 hstep
    exact ih hts (ht s s₁ hs hs₁) hrun

theorem exists_step_of_run_error {ts : List Token} {e : ParseError} (h : s.run ts = .error e) :
    ∃ pre t post s', ts = pre ++ t :: post ∧ s.run pre = .ok s' ∧ s'.step t = .error e := by
  induction ts generalizing s with
  | nil => cases h
  | cons t ts ih =>
    cases hs : s.step t with
    | error e' =>
      rw [run, hs] at h
      cases h
      exact ⟨[], t, ts, s, rfl, rfl, hs⟩
    | ok s' =>
      rw [run_cons_ok hs] at h
      obtain ⟨pre, u, post, s'', rfl, hpre, hu⟩ := ih h
      exact ⟨t :: pre, u, post, s'', rfl, by rw [run_cons_ok hs, hpre], hu⟩

/-- What an assembly may become when it reads a token. -/
inductive Move (s : Assembly) (t : Token) : Assembly → Prop where
  | hand (e : Expr) : t.kind.isFlat = true → Move s t (s.deliver e)
  | begin (c : Construct) : t.kind.opens? = some c.opener → Move s t (s.push c)
  | change {c : Construct} {below : List Construct} (d : Construct) :
      s.stack = c :: below → d.opener = c.opener → t.kind.isFlat = true → Move s t (s.update d)
  | finish {c : Construct} {below : List Construct} (e : Expr) :
      s.stack = c :: below → t.kind = c.opener.closer → Move s t (s.close e)
  | ignore : s.stack = [] → t.kind = .expressionEnd ∨ t.kind = .braceEnd → Move s t s

theorem expression_move (h : s.expression t = .ok s') : Move s t s' := by
  unfold expression at h
  split at h
  case h_6 =>
    split at h
    · next hl =>
      cases hv : literalValue t with
      | error e => simp [hv, Except.map] at h
      | ok v =>
        simp only [hv, Except.map, Except.ok.injEq] at h
        subst h
        exact .hand _ (TokenKind.isFlat_of_isLiteral hl)
    · contradiction
  case h_1 hk =>
    cases h
    exact .hand _ (by rw [hk]; rfl)
  all_goals
    next hk =>
    cases h
    exact .begin _ (by rw [hk]; rfl)

theorem textOr_move {other : Except ParseError Assembly} (h : s.textOr t other = .ok s') :
    Move s t s' ∨ other = .ok s' := by
  unfold textOr at h
  split at h
  · next hk =>
    cases h
    exact .inl (.hand _ (by rw [hk]; rfl))
  · next hk =>
    cases h
    exact .inl (.begin _ (by rw [hk]; rfl))
  · exact .inr h

theorem step_move (h : s.step t = .ok s') : Move s t s' := by
  unfold step at h
  split at h
  · next hs =>
    rcases textOr_move h with hm | ho
    · exact hm
    · split at ho
      · next hk =>
        cases ho
        exact .ignore hs (.inl hk)
      · next hk =>
        cases ho
        exact .ignore hs (.inr hk)
      · contradiction
  · exact expression_move h
  · next hs =>
    split at h
    · next hk =>
      cases h
      exact .finish _ hs hk
    · split at h <;> contradiction
    · contradiction
  iterate 2
    next hs =>
    split at h
    · next hk =>
      cases h
      exact .change _ hs rfl (by rw [hk]; rfl)
    · next hk =>
      cases h
      exact .finish _ hs hk
    · exact expression_move h
  · next hs =>
    split at h
    · next hk =>
      cases h
      have hm : Move s t (s.update _) := .change _ hs rfl (by rw [hk]; rfl)
      rwa [update_self hs] at hm
    · next hk =>
      cases h
      exact .finish _ hs hk
    · contradiction
    · next hk =>
      cases h
      exact .change _ hs rfl (by rw [hk]; rfl)
    · contradiction
  · exact expression_move h
  · next hs =>
    rcases textOr_move h with hm | ho
    · exact hm
    · split at ho
      · next hk =>
        cases ho
        exact .finish _ hs hk
      · contradiction

/-- Why a token cannot be read. Each refusal but that of a malformed number is at the token. -/
inductive Refusal (s : Assembly) (t : Token) : ParseError → Prop where
  | unexpected : Refusal s t (.syntaxError ⟨.unexpectedToken t.kind t.value, t.position⟩)
  | shorthand : t.kind = .identifier →
      Refusal s t (.syntaxError ⟨.shorthandProperty t.value, t.position⟩)
  | templateClosed {p : Nat} {e : Expr} {below : List Construct} :
      s.stack = .interpolation p (some e) :: below → t.kind = .templateEnd →
      Refusal s t (.syntaxError ⟨.templateClosedInExpression, t.position⟩)
  | malformed : t.kind = .number → numberValue? t.value = none →
      Refusal s t (.malformedNumber t.value)

theorem refusal_of_unexpected {e : ParseError} (h : unexpected t = .error e) : Refusal s t e := by
  cases h
  exact .unexpected

theorem literalValue_error {e : ParseError} (h : literalValue t = .error e) :
    t.kind = .number ∧ numberValue? t.value = none ∧ e = .malformedNumber t.value := by
  unfold literalValue at h
  split at h
  case h_4 hk =>
    split at h
    · contradiction
    · next hv =>
      cases h
      exact ⟨hk, hv, rfl⟩
  all_goals contradiction

theorem expression_refusal {e : ParseError} (h : s.expression t = .error e) : Refusal s t e := by
  unfold expression at h
  split at h
  case h_6 =>
    split at h
    · cases hv : literalValue t with
      | ok v => simp [hv, Except.map] at h
      | error e' =>
        simp only [hv, Except.map, Except.error.injEq] at h
        obtain ⟨hk, hn, rfl⟩ := literalValue_error hv
        exact h ▸ .malformed hk hn
    · exact refusal_of_unexpected h
  all_goals contradiction

theorem textOr_error {other : Except ParseError Assembly} {e : ParseError}
    (h : s.textOr t other = .error e) : other = .error e := by
  unfold textOr at h
  split at h
  · contradiction
  · contradiction
  · exact h

theorem step_refusal {e : ParseError} (h : s.step t = .error e) : Refusal s t e := by
  unfold step at h
  split at h
  · have ho := textOr_error h
    split at ho
    · contradiction
    · contradiction
    · exact refusal_of_unexpected ho
  · exact expression_refusal h
  · next hs =>
    split at h
    · contradiction
    · next hk =>
      split at h
      · cases h
        exact .templateClosed hs hk
      · exact refusal_of_unexpected h
    · exact refusal_of_unexpected h
  iterate 2
    split at h
    · contradiction
    · contradiction
    · exact expression_refusal h
  · split at h
    · contradiction
    · contradiction
    · next hk =>
      cases h
      exact .shorthand hk
    · contradiction
    · exact refusal_of_unexpected h
  · exact expression_refusal h
  · have ho := textOr_error h
    split at ho
    · contradiction
    · exact refusal_of_unexpected ho

theorem endFault_eq_none_iff {lastPosition : Nat} :
    s.endFault? lastPosition = none ↔ s.stack = [] := by
  unfold endFault?
  split <;> simp [*]

end Assembly

namespace Phrase

variable {ts : List Token}

theorem ofTokens_eq_ok_iff {p : Phrase} (hts : ts ≠ []) :
    ofTokens ts = .ok p ↔ Assembly.start.run ts = .ok ⟨p, []⟩ := by
  have he : ts.isEmpty = false := by simpa using hts
  simp only [ofTokens, he, Bool.false_eq_true, if_false]
  cases hr : Assembly.start.run ts with
  | error e => simp
  | ok s =>
    obtain ⟨parts, stack⟩ := s
    cases hf : Assembly.endFault? ⟨parts, stack⟩ (Token.lastPosition ts) with
    | none =>
      obtain rfl : stack = [] := Assembly.endFault_eq_none_iff.1 hf
      simp [hf]
    | some e =>
      have hs : stack ≠ [] := fun hs => by
        rw [Assembly.endFault_eq_none_iff.2 hs] at hf
        contradiction
      simp [hf, hs]

theorem ofTokens_error {e : ParseError} (h : ofTokens ts = .error e) :
    Assembly.start.run ts = .error e ∨ ∃ s f, Assembly.start.run ts = .ok s ∧
      s.endFault? (Token.lastPosition ts) = some f ∧ e = .syntaxError f := by
  unfold ofTokens at h
  split at h
  · contradiction
  · split at h
    · next hr =>
      cases h
      exact .inl hr
    · next s hr =>
      split at h
      · next f hf =>
        cases h
        exact .inr ⟨s, f, hr, hf, rfl⟩
      · contradiction

theorem parse_eq_ofTokens {text : String} (h : Token.scan text = .ok ts) :
    parse text = ofTokens ts := by
  rw [parse, h]

end Phrase

end MessageCatalog
