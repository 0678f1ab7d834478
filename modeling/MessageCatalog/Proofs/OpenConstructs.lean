import MessageCatalog.Proofs.Assembling
import MessageCatalog.Proofs.Scanning

/-!
# Open constructs

The scanner keeps the constructs that are open so as to know how to read on, and forgets the
innermost one at any closing token. The assembly keeps what it has read of each open construct, and
refuses a closing token of another construct. As long as no token is refused the two agree: the
constructs on the stack of the assembly are those that the scanner holds open.
-/
namespace MessageCatalog

namespace Assembly

variable {s s' : Assembly} {t : Token}

def openers (s : Assembly) : List Opener := s.stack.map Construct.opener

theorem openers_deliver (s : Assembly) (e : Expr) : (s.deliver e).openers = s.openers := by
  unfold deliver
  split <;> simp_all [openers, update, Construct.opener]

theorem openers_close (s : Assembly) (e : Expr) : (s.close e).openers = s.openers.tail := by
  rw [close, openers_deliver]
  simp [openers]

theorem Move.openers_eq (h : Move s t s') : s'.openers = openAfter s.openers t.kind := by
  cases h with
  | hand e hf => rw [openers_deliver, openAfter_of_isFlat hf]
  | begin c ho => simp [openers, openAfter, ho]
  | change d hs hd hf =>
    rw [openAfter_of_isFlat hf]
    simp [openers, update, hs, hd]
  | finish e hs hk => rw [openers_close, hk, openAfter_closer]
  | ignore hs hk =>
    rcases hk with hk | hk <;> simp [openers, hs, hk, openAfter, TokenKind.opens?]

theorem run_openers {ts : List Token} (h : s.run ts = .ok s') :
    s'.openers = ts.foldl (fun opened t => openAfter opened t.kind) s.openers := by
  induction ts generalizing s with
  | nil =>
    cases h
    rfl
  | cons t ts ih =>
    obtain ⟨s₁, hs, hrun⟩ := exists_step_of_run_ok h
    rw [ih hrun, (step_move hs).openers_eq, List.foldl_cons]

theorem templateEnd_of_step_error {position : Nat}
    (h : s.step t = .error (.syntaxError ⟨.templateClosedInExpression, position⟩)) :
    t.kind = .templateEnd ∧ s.openers.head? = some .interpolation := by
  cases step_refusal h with
  | templateClosed hs hk => exact ⟨hk, by simp [openers, hs, Construct.opener]⟩

theorem endFault_ne_templateClosed (s : Assembly) (n position : Nat) :
    s.endFault? n ≠ some ⟨.templateClosedInExpression, position⟩ := by
  unfold endFault?
  split
  case h_4 => split <;> simp
  all_goals simp

end Assembly

open Assembly Scan

theorem opened_eq_openers {text : String} {ts pre post : List Token} {s : Assembly}
    (h : Token.scan text = .ok ts) (hts : ts = pre ++ post) (hs : Assembly.start.run pre = .ok s) :
    ∃ σ, Emits (.start text) pre σ ∧ σ.tokens = .ok post ∧ σ.opened = s.openers := by
  subst hts
  obtain ⟨σ, hσ, hpost⟩ := exists_emits_of_tokens (State.scan_eq_tokens text ▸ h)
  refine ⟨σ, hσ, hpost, ?_⟩
  rw [hσ.opened_eq, run_openers hs]
  rfl

theorem Phrase.emits_of_parse {text : String} {p : Phrase} (hp : parse text = .ok p)
    (hne : text.toList ≠ []) : ∃ ts position, Emits (.start text) ts ⟨[], position, []⟩ ∧
      Assembly.start.run ts = .ok ⟨p, []⟩ ∧ ts ≠ [] := by
  cases h : Token.scan text with
  | error e =>
    rw [parse, h] at hp
    contradiction
  | ok ts =>
    have hts : ts ≠ [] := by
      rintro rfl
      exact hne (ahead_eq_nil_of_tokens (σ := .start text) h)
    rw [parse_eq_ofTokens h, ofTokens_eq_ok_iff hts] at hp
    obtain ⟨σ, hσ, hend, ho⟩ := opened_eq_openers h (List.append_nil ts).symm hp
    have hrest : σ.rest = [] := by
      have ha := ahead_eq_nil_of_tokens hend
      rwa [State.ahead, ho] at ha
    obtain ⟨opened, position, rest⟩ := σ
    cases ho
    cases hrest
    exact ⟨ts, position, hσ, hp, hts⟩

/-- A text that is scanned and assembled to its end is a phrase. -/
theorem Phrase.parse_of_emits {text : String} {p : Phrase} {ts : List Token} {position : Nat}
    (h : Emits (.start text) ts ⟨[], position, []⟩) (hr : Assembly.start.run ts = .ok ⟨p, []⟩)
    (hts : ts ≠ []) : parse text = .ok p := by
  have hscan : Token.scan text = .ok ts := tokens_of_emits h rfl
  rw [parse_eq_ofTokens hscan]
  exact (ofTokens_eq_ok_iff hts).2 hr

theorem head_fits {σ : State} {t : Token} {post : List Token} (h : σ.tokens = .ok (t :: post)) :
    Fits σ.opened t.kind := by
  obtain ⟨τ, hτ, -⟩ := @exists_emits_of_tokens [t] post σ h
  cases hτ with
  | next hn _ => exact next_fits hn

/-- The scanner and the assembly stay in step: before every token that is read they hold the same
constructs open, a closing brace never comes where none is open, no template is closed within an
interpolation, and a text is a phrase only if it ends with nothing open. -/
theorem scan_in_step {text : String} {ts : List Token} (h : Token.scan text = .ok ts) :
    (∀ pre post s, ts = pre ++ post → Assembly.start.run pre = .ok s →
      (∃ σ, Emits (.start text) pre σ ∧ σ.tokens = .ok post ∧ σ.opened = s.openers) ∧
      ∀ t ∈ post.head?, s.stack = [] → t.kind ≠ .expressionEnd ∧ t.kind ≠ .braceEnd) ∧
    (∀ position,
      Phrase.parse text ≠ .error (.syntaxError ⟨.templateClosedInExpression, position⟩)) ∧
    (∀ p, Phrase.parse text = .ok p →
      ∃ σ, Emits (.start text) ts σ ∧ σ.ahead = [] ∧ σ.opened = []) := by
  refine ⟨fun pre post s hts hs => ?_, fun position hp => ?_, fun p hp => ?_⟩
  · have hσ := opened_eq_openers h hts hs
    refine ⟨hσ, fun t ht hstack => ?_⟩
    obtain ⟨σ, -, hpost, ho⟩ := hσ
    obtain ⟨us, rfl⟩ : ∃ us, post = t :: us := List.head?_eq_some_iff.1 ht
    have hf := head_fits hpost
    rw [ho, openers, hstack] at hf
    rcases hf with hk | hk <;> simp [hk]
  · rw [Phrase.parse_eq_ofTokens h] at hp
    rcases Phrase.ofTokens_error hp with hr | ⟨s, f, -, hf, he⟩
    · obtain ⟨pre, t, post, s, hts, hs, hstep⟩ := exists_step_of_run_error hr
      obtain ⟨σ, -, hpost, ho⟩ := opened_eq_openers h hts hs
      obtain ⟨hk, htop⟩ := templateEnd_of_step_error hstep
      have hfits := head_fits hpost
      obtain ⟨below, hopen⟩ : ∃ below, s.openers = .interpolation :: below :=
        List.head?_eq_some_iff.1 htop
      rw [ho, hopen] at hfits
      exact hfits.2.1 hk
    · cases he
      exact endFault_ne_templateClosed s _ _ hf
  · rw [Phrase.parse_eq_ofTokens h] at hp
    by_cases hts : ts = []
    · subst hts
      exact ⟨_, .stay _, ahead_eq_nil_of_tokens h, rfl⟩
    · rw [Phrase.ofTokens_eq_ok_iff hts] at hp
      obtain ⟨σ, hσ, hend, ho⟩ := opened_eq_openers h (List.append_nil ts).symm hp
      exact ⟨σ, hσ, ahead_eq_nil_of_tokens hend, ho⟩

theorem scan_in_step_nested :
    ∃ ts, Token.scan "a$\x7bf([`b`])\x7d" = .ok ts ∧
      ∃ s, Assembly.start.run (ts.take 4) = .ok s ∧
        s.openers = [.bracket, .call, .interpolation] ∧
        ∃ σ, Emits (.start "a$\x7bf([`b`])\x7d") (ts.take 4) σ ∧
          σ.opened = [.bracket, .call, .interpolation] := by
  have he : Emits (.start "a$\x7bf([`b`])\x7d")
      [⟨.string, "a", 0⟩, ⟨.expressionStart, "$\x7b", 1⟩, ⟨.functionCall, "f", 3⟩,
        ⟨.bracketStart, "[", 5⟩, ⟨.templateStart, "`", 6⟩, ⟨.string, "b", 7⟩,
        ⟨.templateEnd, "`", 8⟩, ⟨.bracketEnd, "]", 9⟩, ⟨.parenEnd, ")", 10⟩,
        ⟨.expressionEnd, "\x7d", 11⟩] ⟨[], 12, []⟩ := by decide +kernel
  have hs := tokens_of_emits he rfl
  obtain ⟨σ, hσ, -, ho⟩ := ((scan_in_step hs).1 _ _ _ (List.take_append_drop 4 _).symm rfl).1
  exact ⟨_, hs, _, rfl, rfl, σ, hσ, ho⟩

end MessageCatalog
