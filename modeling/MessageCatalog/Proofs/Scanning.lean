import MessageCatalog.Token.Scan

/-!
# Scanning step by step

A scan is a walk: at each step it stands somewhere in the text, within some open constructs, and
takes one token off the front of what is left. The tokens of a text are those that the walk from its
beginning emits. What kind of token a step can emit is decided by the innermost open construct.
-/
namespace MessageCatalog.Scan

structure State where
  opened : List Opener
  position : Nat
  rest : List Char
deriving DecidableEq

namespace State

def start (text : String) : State := ⟨[], 0, text.toList⟩

def ahead (σ : State) : List Char := skip σ.opened σ.rest

def aheadPosition (σ : State) : Nat := σ.position + (σ.rest.length - σ.ahead.length)

def after (σ : State) (l : Lexeme) : State :=
  ⟨openAfter σ.opened l.kind, σ.aheadPosition + (σ.ahead.length - l.rest.length), l.rest⟩

def next? (σ : State) : Option (Token × State) :=
  (lexeme? σ.opened σ.ahead).map fun l =>
    (⟨l.kind, String.ofList l.value, σ.aheadPosition⟩, σ.after l)

def tokens (σ : State) : Except SyntaxError (List Token) :=
  tokensFrom σ.opened σ.position σ.rest

end State

theorem lexeme_nil (opened : List Opener) : lexeme? opened [] = none := by
  rcases opened with _ | ⟨opener, below⟩
  · rfl
  · cases opener <;> rfl

namespace State

variable {σ τ : State} {t : Token}

theorem scan_eq_tokens (text : String) : Token.scan text = (start text).tokens := rfl

theorem next_of_lexeme {l : Lexeme} (h : lexeme? σ.opened σ.ahead = some l) :
    σ.next? = some (⟨l.kind, String.ofList l.value, σ.aheadPosition⟩, σ.after l) := by
  rw [next?, h]
  rfl

theorem exists_lexeme_of_next (h : σ.next? = some (t, τ)) :
    ∃ l, lexeme? σ.opened σ.ahead = some l ∧
      t = ⟨l.kind, String.ofList l.value, σ.aheadPosition⟩ ∧ τ = σ.after l := by
  obtain ⟨l, hl, h⟩ := Option.map_eq_some_iff.1 h
  cases h
  exact ⟨l, hl, rfl, rfl⟩

theorem tokens_of_ahead_nil (h : σ.ahead = []) : σ.tokens = .ok [] := by
  unfold tokens
  rw [tokensFrom]
  split
  · rfl
  · next c rest hc =>
    rw [State.ahead, hc] at h
    contradiction

theorem tokens_of_next (h : σ.next? = some (t, τ)) : σ.tokens = τ.tokens.map (t :: ·) := by
  obtain ⟨l, hl, rfl, rfl⟩ := exists_lexeme_of_next h
  unfold tokens
  rw [tokensFrom]
  split
  · next hnil =>
    rw [State.ahead, hnil, lexeme_nil] at hl
    contradiction
  · next c rest hc =>
    have ha : σ.ahead = c :: rest := hc
    rw [ha] at hl
    split
    · next hnone =>
      rw [hl] at hnone
      contradiction
    · next l' hl' =>
      rw [hl, Option.some.injEq] at hl'
      subst hl'
      simp only [after, aheadPosition, ha, List.length_cons, hc]

theorem tokens_of_stuck {c : Char} {rest : List Char} (ha : σ.ahead = c :: rest)
    (h : σ.next? = none) :
    σ.tokens = .error ⟨.unexpectedCharacter c (Mode.ofOpen σ.opened), σ.aheadPosition⟩ := by
  have hl : lexeme? σ.opened σ.ahead = none := by simpa [next?] using h
  unfold tokens
  rw [tokensFrom]
  split
  · next hnil =>
    rw [State.ahead, hnil] at ha
    contradiction
  · next hc =>
    cases ha.symm.trans hc
    rw [ha] at hl
    split
    · simp only [aheadPosition, ha, hc]
    · next hl' =>
      rw [hl] at hl'
      contradiction

theorem tokens_ne_ok_of_stuck (ha : σ.ahead ≠ []) (h : σ.next? = none) (ts : List Token) :
    σ.tokens ≠ .ok ts := by
  obtain ⟨c, rest, hc⟩ := List.exists_cons_of_ne_nil ha
  rw [tokens_of_stuck hc h]
  simp

end State

/-- A walk from one place of a scan to another, and the tokens it emits. -/
inductive Emits : State → List Token → State → Prop where
  | stay (σ : State) : Emits σ [] σ
  | next {σ τ υ : State} {t : Token} {ts : List Token} :
      σ.next? = some (t, τ) → Emits τ ts υ → Emits σ (t :: ts) υ

namespace Emits

variable {σ τ υ : State} {t : Token} {ts us : List Token}

theorem append (h : Emits σ ts τ) (h' : Emits τ us υ) : Emits σ (ts ++ us) υ := by
  induction h with
  | stay => exact h'
  | next hn _ ih => exact .next hn (ih h')

theorem eq_of_nil (h : Emits σ [] τ) : τ = σ := by
  cases h
  rfl

theorem split (h : Emits σ (ts ++ us) υ) : ∃ τ, Emits σ ts τ ∧ Emits τ us υ := by
  induction ts generalizing σ with
  | nil => exact ⟨σ, .stay σ, h⟩
  | cons t ts ih =>
    cases h with
    | next hn h =>
      obtain ⟨τ, hts, hus⟩ := ih h
      exact ⟨τ, .next hn hts, hus⟩

theorem opened_eq (h : Emits σ ts τ) :
    τ.opened = ts.foldl (fun opened t => openAfter opened t.kind) σ.opened := by
  induction h with
  | stay => rfl
  | next hn _ ih =>
    obtain ⟨l, -, rfl, rfl⟩ := State.exists_lexeme_of_next hn
    simpa only [List.foldl_cons, State.after] using ih

theorem tokens_eq (h : Emits σ ts τ) : σ.tokens = τ.tokens.map (ts ++ ·) := by
  induction h with
  | stay σ => cases σ.tokens <;> rfl
  | @next _ τ _ t _ hn _ ih =>
    rw [State.tokens_of_next hn, ih]
    cases (State.tokens _) <;> rfl

end Emits

theorem tokens_of_emits {σ τ : State} {ts : List Token} (h : Emits σ ts τ) (ha : τ.ahead = []) :
    σ.tokens = .ok ts := by
  rw [h.tokens_eq, State.tokens_of_ahead_nil ha]
  simp [Except.map]

def State.take : Nat → State → Option (List Token × State)
  | 0, σ => some ([], σ)
  | n + 1, σ => σ.next?.bind fun s => (take n s.2).map fun r => (s.1 :: r.1, r.2)

theorem emits_iff_take {σ τ : State} {ts : List Token} :
    Emits σ ts τ ↔ State.take ts.length σ = some (ts, τ) := by
  induction ts generalizing σ with
  | nil =>
    constructor
    · intro h
      cases h
      rfl
    · intro h
      cases h
      exact .stay _
  | cons t ts ih =>
    simp only [List.length_cons, State.take, Option.bind_eq_some_iff, Option.map_eq_some_iff,
      Prod.mk.injEq, List.cons.injEq]
    constructor
    · intro h
      cases h with
      | next hn ht => exact ⟨_, hn, _, ih.1 ht, ⟨rfl, rfl⟩, rfl⟩
    · rintro ⟨⟨u, υ⟩, hn, ⟨us, _⟩, ht, ⟨rfl, rfl⟩, rfl⟩
      exact .next hn (ih.2 ht)

instance {σ τ : State} {ts : List Token} : Decidable (Emits σ ts τ) :=
  decidable_of_iff _ emits_iff_take.symm

theorem exists_emits_of_tokens {pre post : List Token} {σ : State}
    (h : σ.tokens = .ok (pre ++ post)) : ∃ τ, Emits σ pre τ ∧ τ.tokens = .ok post := by
  induction pre generalizing σ with
  | nil => exact ⟨σ, .stay σ, h⟩
  | cons t pre ih =>
    cases hn : σ.next? with
    | none =>
      by_cases ha : σ.ahead = []
      · simp [State.tokens_of_ahead_nil ha] at h
      · exact absurd h (State.tokens_ne_ok_of_stuck ha hn _)
    | some s =>
      obtain ⟨u, τ⟩ := s
      rw [State.tokens_of_next hn] at h
      cases ht : τ.tokens with
      | error e => simp [ht, Except.map] at h
      | ok us =>
        simp only [ht, Except.map, List.cons_append, Except.ok.injEq, List.cons.injEq] at h
        obtain ⟨rfl, rfl⟩ := h
        obtain ⟨υ, hυ, hpost⟩ := ih ht
        exact ⟨υ, .next hn hυ, hpost⟩

theorem ahead_eq_nil_of_tokens {σ : State} (h : σ.tokens = .ok []) : σ.ahead = [] := by
  by_cases ha : σ.ahead = []
  · exact ha
  · cases hn : σ.next? with
    | none => exact absurd h (State.tokens_ne_ok_of_stuck ha hn _)
    | some s =>
      rw [State.tokens_of_next (t := s.1) (τ := s.2) hn] at h
      cases ht : s.2.tokens <;> simp [ht, Except.map] at h

/-- The kinds of token that can be emitted within some open constructs. -/
def Fits (opened : List Opener) (kind : TokenKind) : Prop :=
  match Mode.ofOpen opened with
  | .body => kind = .string ∨ kind = .expressionStart
  | .template => kind = .string ∨ kind = .expressionStart ∨ kind = .templateEnd
  | .expression => kind ≠ .expressionStart ∧ kind ≠ .templateEnd ∧
      (kind = .expressionEnd → opened.head? = some .interpolation)

theorem textLexeme_kind {inTemplate : Bool} {cs : List Char} {l : Lexeme}
    (h : textLexeme? inTemplate cs = some l) :
    l.kind = .string ∨ l.kind = .expressionStart ∨ inTemplate = true ∧ l.kind = .templateEnd := by
  unfold textLexeme? at h
  split at h
  · contradiction
  · cases h
    exact .inr (.inl rfl)
  · split at h
    · next hb =>
      simp only [Bool.and_eq_true] at hb
      cases h
      exact .inr (.inr ⟨hb.1, rfl⟩)
    · cases h
      exact .inl rfl

theorem keyword_kind {word : List Char} {kind : TokenKind} (h : keyword? word = some kind) :
    kind = .boolean ∨ kind = .null ∨ kind = .undefined := by
  unfold keyword? at h
  split at h
  · cases h
    exact .inl rfl
  · split at h
    · cases h
      exact .inr (.inl rfl)
    · split at h
      · cases h
        exact .inr (.inr rfl)
      · contradiction

theorem wordLexeme_kind {cs : List Char} {l : Lexeme} (h : wordLexeme? cs = some l) :
    l.kind ∈ [.boolean, .null, .undefined, .functionCall, .propertyName, .identifier] := by
  simp only [wordLexeme?] at h
  split at h
  · contradiction
  · split at h
    · next hk =>
      cases h
      rcases keyword_kind hk with rfl | rfl | rfl <;> simp
    · split at h <;> cases h <;> simp

theorem closingBrace_ne_expressionEnd {opener : Opener} (h : closingBrace opener = .expressionEnd) :
    opener = .interpolation := by
  cases opener with
  | interpolation => rfl
  | _ => contradiction

theorem expressionLexeme_kind {opener : Opener} {cs : List Char} {l : Lexeme}
    (h : expressionLexeme? opener cs = some l) :
    l.kind ≠ .expressionStart ∧ l.kind ≠ .templateEnd ∧
      (l.kind = .expressionEnd → opener = .interpolation) := by
  unfold expressionLexeme? at h
  split at h
  iterate 2
    obtain ⟨s, -, rfl⟩ := Option.map_eq_some_iff.1 h
    simp
  iterate 3
    cases h
    simp
  · cases h
    refine ⟨?_, ?_, closingBrace_ne_expressionEnd⟩ <;> cases opener <;> simp [closingBrace]
  iterate 3
    cases h
    simp
  · split at h
    · cases h
      simp
    · have hk := wordLexeme_kind h
      simp only [List.mem_cons, List.not_mem_nil, or_false] at hk
      rcases hk with hk | hk | hk | hk | hk | hk <;> simp [hk]

theorem next_fits {σ τ : State} {t : Token} (h : σ.next? = some (t, τ)) :
    Fits σ.opened t.kind := by
  obtain ⟨l, hl, rfl, -⟩ := State.exists_lexeme_of_next h
  unfold lexeme? at hl
  split at hl
  · next ho =>
    rw [ho]
    rcases textLexeme_kind hl with hk | hk | ⟨hb, -⟩
    · exact .inl hk
    · exact .inr hk
    · contradiction
  · next ho =>
    rw [ho]
    rcases textLexeme_kind hl with hk | hk | ⟨-, hk⟩
    · exact .inl hk
    · exact .inr (.inl hk)
    · exact .inr (.inr hk)
  · next opener below hne ho =>
    have hm : Mode.ofOpen σ.opened = .expression := by
      rw [ho]
      cases opener with
      | template => exact (hne rfl).elim
      | _ => rfl
    obtain ⟨h₁, h₂, h₃⟩ := expressionLexeme_kind hl
    simp only [Fits, hm]
    exact ⟨h₁, h₂, fun hk => by rw [ho, h₃ hk]; rfl⟩

end MessageCatalog.Scan
