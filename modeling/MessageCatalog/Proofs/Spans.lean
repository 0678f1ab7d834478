import Mathlib.Data.List.Pairwise
import MessageCatalog.Proofs.TokenSpelling

/-!
# Spans

Each token covers a span of its text, from its position on. The spans come one after the other, and
what is between them are blanks that the scanner skips in expressions. So nothing is lost: from the
span of a token its value can be read, and outside of expressions every character belongs to a
token.
-/
namespace MessageCatalog
open Text

namespace Scan

structure Span where
  token : Token
  stop : Nat

namespace Span

def Covers (s : Span) (place : Nat) : Prop := s.token.position ≤ place ∧ place < s.stop

def chars (s : Span) (text : List Char) : List Char :=
  (text.drop s.token.position).take (s.stop - s.token.position)

end Span

/-- The constructs that are open at a place of a text: those that the tokens before it leave open.
-/
def openedAt (opened : List Opener) : List Token → Nat → List Opener
  | [], _ => opened
  | t :: ts, place =>
    if t.position < place then openedAt (openAfter opened t.kind) ts place else opened

theorem openedAt_cons_of_lt {opened : List Opener} {t : Token} {ts : List Token} {place : Nat}
    (h : t.position < place) :
    openedAt opened (t :: ts) place = openedAt (openAfter opened t.kind) ts place :=
  if_pos h

theorem openedAt_cons_of_le {opened : List Opener} {t : Token} {ts : List Token} {place : Nat}
    (h : place ≤ t.position) : openedAt opened (t :: ts) place = opened :=
  if_neg (Nat.not_lt.2 h)

theorem openedAt_of_lt {opened : List Opener} {ts : List Token} {place : Nat}
    (h : ∀ t ∈ ts, t.position < place) :
    openedAt opened ts place = ts.foldl (fun opened t => openAfter opened t.kind) opened := by
  induction ts generalizing opened with
  | nil => rfl
  | cons t ts ih =>
    rw [openedAt_cons_of_lt (h t List.mem_cons_self), List.foldl_cons,
      ih fun u hu => h u (List.mem_cons_of_mem t hu)]

theorem exists_blanks_of_skip (opened : List Opener) (cs : List Char) :
    ∃ blanks, cs = blanks ++ skip opened cs ∧
      ∀ c ∈ blanks, isBlank c = true ∧ Mode.ofOpen opened = .expression := by
  unfold skip
  split
  · next hmode =>
    have hblank : ∀ c ∈ cs.takeWhile isBlank, isBlank c = true := List.all_eq_true.1 List.all_takeWhile
    exact ⟨cs.takeWhile isBlank, List.takeWhile_append_dropWhile.symm,
      fun c hc => ⟨hblank c hc, hmode⟩⟩
  · exact ⟨[], rfl, by simp⟩

structure Taken (σ : State) (t : Token) (τ : State) (blanks span : List Char) : Prop where
  rest_eq : σ.rest = blanks ++ (span ++ τ.rest)
  blank : ∀ c ∈ blanks, isBlank c = true ∧ Mode.ofOpen σ.opened = .expression
  nonempty : span ≠ []
  spells : Spells (Mode.ofOpen σ.opened) t.kind t.value span τ.rest
  position_eq : t.position = σ.position + blanks.length
  stop_eq : τ.position = t.position + span.length
  opened_eq : τ.opened = openAfter σ.opened t.kind

theorem State.exists_taken {σ τ : State} {t : Token} (h : σ.next? = some (t, τ)) :
    ∃ blanks span, Taken σ t τ blanks span := by
  obtain ⟨l, hl, rfl, rfl⟩ := exists_lexeme_of_next h
  obtain ⟨blanks, hrest, hblank⟩ := exists_blanks_of_skip σ.opened σ.rest
  obtain ⟨span, hahead, hspells⟩ := lexeme_spells hl
  have hlt := length_lexeme_lt hl
  rw [hahead, List.length_append] at hlt
  have hlength : σ.rest.length = blanks.length + σ.ahead.length := by
    rw [hrest, List.length_append]
    rfl
  refine ⟨blanks, span, ?_, hblank, ?_, hspells, ?_, ?_, rfl⟩
  · exact hrest.trans (congrArg (blanks ++ ·) hahead)
  · rintro rfl
    simp at hlt
  · change σ.aheadPosition = _
    rw [aheadPosition, hlength]
    omega
  · change σ.aheadPosition + (σ.ahead.length - l.rest.length) = σ.aheadPosition + span.length
    rw [hahead, List.length_append]
    omega

def State.In (text : List Char) (σ : State) : Prop :=
  ∃ before, text = before ++ σ.rest ∧ before.length = σ.position

structure Covering (text : List Char) (opened : List Opener) (start stop : Nat) (ts : List Token)
    (spans : List Span) : Prop where
  tokens_eq : spans.map Span.token = ts
  ordered : spans.Pairwise fun s s' => s.stop ≤ s'.token.position
  within : ∀ s ∈ spans, start ≤ s.token.position ∧ s.token.position < s.stop ∧ s.stop ≤ stop
  spells : ∀ s ∈ spans, Spells (Mode.ofOpen (openedAt opened ts s.token.position)) s.token.kind
    s.token.value (s.chars text) (text.drop s.stop)
  blank : ∀ place c, start ≤ place → place < stop → text[place]? = some c →
    (∀ s ∈ spans, ¬ s.Covers place) →
    isBlank c = true ∧ Mode.ofOpen (openedAt opened ts place) = .expression

theorem covering_nil (text : List Char) (opened : List Opener) (start : Nat) :
    Covering text opened start start [] [] where
  tokens_eq := rfl
  ordered := .nil
  within := by simp
  spells := by simp
  blank := fun place _ hstart hstop => by omega

section Step

variable {text before blanks span : List Char} {σ τ : State} {t : Token} {ts : List Token}
  {stop : Nat} {spans : List Span}

theorem Taken.length_lt (h : Taken σ t τ blanks span) : τ.rest.length < σ.rest.length := by
  have hlength := congrArg List.length h.rest_eq
  have hspan := List.length_pos_iff.2 h.nonempty
  simp only [List.length_append] at hlength
  omega

theorem Taken.text_eq (h : Taken σ t τ blanks span) (hσ : text = before ++ σ.rest) :
    text = (before ++ (blanks ++ span)) ++ τ.rest := by
  rw [hσ, h.rest_eq]
  simp only [List.append_assoc]

theorem Taken.in_text (h : Taken σ t τ blanks span) (hσ : σ.In text) : τ.In text := by
  obtain ⟨before, htext, hbefore⟩ := hσ
  refine ⟨_, h.text_eq htext, ?_⟩
  rw [h.stop_eq, h.position_eq, ← hbefore]
  simp only [List.length_append]
  omega

theorem Taken.chars_eq (h : Taken σ t τ blanks span) (hσ : σ.In text) :
    (Span.mk t τ.position).chars text = span ∧ text.drop τ.position = τ.rest := by
  obtain ⟨before, htext, hbefore⟩ := hσ
  have hspan : text = (before ++ blanks) ++ (span ++ τ.rest) := by
    rw [h.text_eq htext]
    simp only [List.append_assoc]
  have hposition : t.position = (before ++ blanks).length := by
    rw [h.position_eq, ← hbefore, List.length_append]
  have hstop : τ.position = (before ++ (blanks ++ span)).length := by
    rw [h.stop_eq, h.position_eq, ← hbefore]
    simp only [List.length_append]
    omega
  constructor
  · change (text.drop t.position).take (τ.position - t.position) = span
    rw [h.stop_eq, Nat.add_sub_cancel_left, hposition, hspan, List.drop_left, List.take_left]
  · rw [hstop, h.text_eq htext, List.drop_left]

theorem Covering.cons (h : Taken σ t τ blanks span) (hσ : σ.In text)
    (hts : Covering text τ.opened τ.position stop ts spans) (hstop : τ.position ≤ stop) :
    Covering text σ.opened σ.position stop (t :: ts) (⟨t, τ.position⟩ :: spans) := by
  have hposition := h.position_eq
  have hspan := h.stop_eq
  have hlength : 0 < span.length := List.length_pos_iff.2 h.nonempty
  have hafter (place : Nat) (hplace : τ.position ≤ place) :
      openedAt σ.opened (t :: ts) place = openedAt τ.opened ts place := by
    rw [openedAt_cons_of_lt (by omega), h.opened_eq]
  refine ⟨?_, ?_, fun s hs => ?_, fun s hs => ?_, fun place c hstart hend hc hfree => ?_⟩
  · rw [List.map_cons, hts.tokens_eq]
  · exact List.pairwise_cons.2 ⟨fun s hs => (hts.within s hs).1, hts.ordered⟩
  · rcases List.mem_cons.1 hs with rfl | hs
    · refine ⟨?_, ?_, hstop⟩
      all_goals
        dsimp only
        omega
    · obtain ⟨hs₁, hs₂, hs₃⟩ := hts.within s hs
      exact ⟨by omega, hs₂, hs₃⟩
  · rcases List.mem_cons.1 hs with rfl | hs
    · obtain ⟨hchars, hrest⟩ := h.chars_eq hσ
      rw [hchars, hrest, openedAt_cons_of_le (Nat.le_refl _)]
      exact h.spells
    · rw [hafter _ (hts.within s hs).1]
      exact hts.spells s hs
  · by_cases hgap : place < t.position
    · -- The place is among the blanks before the token.
      obtain ⟨before, htext, hbefore⟩ := hσ
      have hmem : c ∈ blanks := by
        rw [htext, h.rest_eq, List.getElem?_append_right (by omega),
          List.getElem?_append_left (by omega)] at hc
        exact List.mem_of_getElem? hc
      rw [openedAt_cons_of_le (by omega)]
      exact h.blank c hmem
    · have hplace : τ.position ≤ place := Nat.le_of_not_lt fun hlt =>
        hfree _ List.mem_cons_self ⟨Nat.le_of_not_lt hgap, hlt⟩
      rw [hafter place hplace]
      exact hts.blank place c hplace hend hc fun s hs => hfree s (List.mem_cons_of_mem _ hs)

theorem Emits.spells (h : Emits σ ts τ) :
    ∀ t ∈ ts, ∃ mode span rest, Spells mode t.kind t.value span rest := by
  induction h with
  | stay σ => simp
  | next hn _ ih =>
    obtain ⟨blanks, span, htaken⟩ := State.exists_taken hn
    intro u hu
    rcases List.mem_cons.1 hu with rfl | hu
    · exact ⟨_, _, _, htaken.spells⟩
    · exact ih u hu

theorem Emits.exists_covering (h : Emits σ ts τ) (hσ : σ.In text) :
    σ.position ≤ τ.position ∧ τ.In text ∧
      ∃ spans, Covering text σ.opened σ.position τ.position ts spans := by
  induction h with
  | stay σ => exact ⟨Nat.le_refl _, hσ, [], covering_nil text σ.opened σ.position⟩
  | next hn _ ih =>
    obtain ⟨blanks, span, htaken⟩ := State.exists_taken hn
    obtain ⟨hle, hτ, spans, hspans⟩ := ih (htaken.in_text hσ)
    have hposition := htaken.position_eq
    have hstop := htaken.stop_eq
    exact ⟨by omega, hτ, _, .cons htaken hσ hspans hle⟩

end Step

theorem Covering.finish {text : List Char} {σ τ : State} {ts : List Token} {spans : List Span}
    (h : Covering text σ.opened σ.position τ.position ts spans) (hts : Emits σ ts τ)
    (hτ : τ.In text) (ha : τ.ahead = []) :
    Covering text σ.opened σ.position text.length ts spans := by
  obtain ⟨before, htext, hbefore⟩ := hτ
  obtain ⟨blanks, hrest, hblank⟩ := exists_blanks_of_skip τ.opened τ.rest
  have hrest : τ.rest = blanks := by
    rw [hrest, show skip τ.opened τ.rest = [] from ha, List.append_nil]
  have hlength : τ.position ≤ text.length := by
    rw [htext, List.length_append, hbefore]
    omega
  refine ⟨h.tokens_eq, h.ordered, fun s hs => ?_, h.spells, fun place c hstart hend hc hfree => ?_⟩
  · obtain ⟨hs₁, hs₂, hs₃⟩ := h.within s hs
    exact ⟨hs₁, hs₂, by omega⟩
  · by_cases hplace : place < τ.position
    · exact h.blank place c hstart hplace hc hfree
    · have hmem : c ∈ blanks := by
        rw [htext, hrest, List.getElem?_append_right (by omega)] at hc
        exact List.mem_of_getElem? hc
      have hbefore : ∀ t ∈ ts, t.position < place := by
        intro t ht
        rw [← h.tokens_eq] at ht
        obtain ⟨s, hs, rfl⟩ := List.mem_map.1 ht
        have := h.within s hs
        omega
      rw [openedAt_of_lt hbefore, ← hts.opened_eq]
      exact hblank c hmem

theorem Covering.eq_of_covers {text : List Char} {opened : List Opener} {start stop place : Nat}
    {ts : List Token} {spans : List Span} (h : Covering text opened start stop ts spans)
    {s s' : Span} (hs : s ∈ spans) (hs' : s' ∈ spans) (hc : s.Covers place)
    (hc' : s'.Covers place) : s' = s := by
  have hapart : spans.Pairwise fun s s' =>
      s.stop ≤ s'.token.position ∨ s'.stop ≤ s.token.position := h.ordered.imp Or.inl
  have hsymm : Std.Symm fun s s' : Span =>
      s.stop ≤ s'.token.position ∨ s'.stop ≤ s.token.position := ⟨fun _ _ => Or.symm⟩
  by_cases hne : s' = s
  · exact hne
  · have := hapart.forall hs' hs hne
    obtain ⟨h₁, h₂⟩ := hc
    obtain ⟨h₃, h₄⟩ := hc'
    omega

theorem Covering.position_lt {text : List Char} {opened : List Opener} {start stop : Nat}
    {ts : List Token} {spans : List Span} (h : Covering text opened start stop ts spans) :
    (ts.map Token.position).Pairwise (· < ·) := by
  rw [← h.tokens_eq, List.map_map, List.pairwise_map]
  refine h.ordered.imp_of_mem fun {s s'} hs _ hle => ?_
  exact Nat.lt_of_lt_of_le (h.within s hs).2.1 hle

theorem State.start_in (text : String) : (State.start text).In text.toList := ⟨[], rfl, rfl⟩

theorem exists_covering_of_scan {text : String} {ts : List Token} (h : Token.scan text = .ok ts) :
    ∃ spans, Covering text.toList [] 0 text.toList.length ts spans := by
  rw [State.scan_eq_tokens, ← List.append_nil ts] at h
  obtain ⟨σ, hσ, hend⟩ := exists_emits_of_tokens h
  obtain ⟨-, hin, spans, hspans⟩ := hσ.exists_covering (State.start_in text)
  exact ⟨spans, hspans.finish hσ hin (ahead_eq_nil_of_tokens hend)⟩

theorem position_lt_of_scan {text : String} {ts : List Token} (h : Token.scan text = .ok ts) :
    ∀ t ∈ ts, t.position < text.toList.length := by
  obtain ⟨spans, hspans⟩ := exists_covering_of_scan h
  intro t ht
  rw [← hspans.tokens_eq] at ht
  obtain ⟨s, hs, rfl⟩ := List.mem_map.1 ht
  obtain ⟨-, hlt, hle⟩ := hspans.within s hs
  omega

/-- Scanning loses nothing. The tokens of a text have spans that come one after the other, each
token is spelled by the characters of its span, and a character that belongs to no span is a blank
skipped in an expression. -/
theorem scan_lossless {text : String} {ts : List Token} (h : Token.scan text = .ok ts) :
    (ts.map Token.position).Pairwise (· < ·) ∧
    ∃ spans : List Span, spans.map Span.token = ts ∧
      spans.Pairwise (fun s s' => s.stop ≤ s'.token.position) ∧
      (∀ s ∈ spans, s.token.position < s.stop ∧ s.stop ≤ text.toList.length ∧
        Spells (Mode.ofOpen (openedAt [] ts s.token.position)) s.token.kind s.token.value
          (s.chars text.toList) (text.toList.drop s.stop)) ∧
      ∀ place c, text.toList[place]? = some c →
        (∃ s ∈ spans, s.Covers place ∧ ∀ s' ∈ spans, s'.Covers place → s' = s) ∨
        (∀ s ∈ spans, ¬ s.Covers place) ∧ isBlank c = true ∧
          Mode.ofOpen (openedAt [] ts place) = .expression := by
  obtain ⟨spans, hcover⟩ := exists_covering_of_scan h
  refine ⟨hcover.position_lt, spans, hcover.tokens_eq, hcover.ordered, fun s hs => ?_,
    fun place c hc => ?_⟩
  · obtain ⟨-, hlt, hle⟩ := hcover.within s hs
    exact ⟨hlt, hle, hcover.spells s hs⟩
  · by_cases hcovered : ∃ s ∈ spans, s.Covers place
    · obtain ⟨s, hs, hplace⟩ := hcovered
      exact .inl ⟨s, hs, hplace, fun s' hs' hplace' => hcover.eq_of_covers hs hs' hplace hplace'⟩
    · have hfree : ∀ s ∈ spans, ¬ s.Covers place := fun s hs hplace => hcovered ⟨s, hs, hplace⟩
      obtain ⟨hplace, -⟩ := List.getElem?_eq_some_iff.1 hc
      exact .inr ⟨hfree, hcover.blank place c (Nat.zero_le _) hplace hc hfree⟩

theorem scan_lossless_escape :
    ∃ ts, Token.scan "a$\x7b f ('\\'' , -1.5) \x7d" = .ok ts ∧
      ts.map Token.value = ["a", "$\x7b", "f", "'", ",", "-1.5", ")", "\x7d"] ∧
      (ts.map Token.position).Pairwise (· < ·) ∧
      ∃ spans : List Span, spans.map Span.token = ts ∧
        ∀ s ∈ spans, s.token.position < s.stop := by
  have he : Emits (.start "a$\x7b f ('\\'' , -1.5) \x7d")
      [⟨.string, "a", 0⟩, ⟨.expressionStart, "$\x7b", 1⟩, ⟨.functionCall, "f", 4⟩,
        ⟨.string, "'", 7⟩, ⟨.comma, ",", 12⟩, ⟨.number, "-1.5", 14⟩, ⟨.parenEnd, ")", 18⟩,
        ⟨.expressionEnd, "\x7d", 20⟩] ⟨[], 21, []⟩ := by decide +kernel
  have hs := tokens_of_emits he rfl
  obtain ⟨hpositions, spans, hspans, -, hspells, -⟩ := scan_lossless hs
  exact ⟨_, hs, rfl, hpositions, spans, hspans, fun s hs => (hspells s hs).1⟩

end Scan

end MessageCatalog
