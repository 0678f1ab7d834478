import MessageCatalog.Proofs.Extension
import MessageCatalog.Proofs.Relocation
import MessageCatalog.Proofs.Stacking

/-!
# Reading within more text

A text that is a phrase is read in the same way where other constructs are open around it and more
text follows, if plain text is read there: the scanner comes to the same tokens with those
constructs left below, and the assembly hands the same expressions to what is open there.
-/
namespace MessageCatalog

namespace Scan

structure ReadsText (opened : List Opener) (inTemplate : Bool) : Prop where
  skip_eq : ∀ cs, skip opened cs = cs
  lexeme_eq : ∀ cs, lexeme? opened cs = textLexeme? inTemplate cs

theorem readsText_nil : ReadsText [] false := ⟨fun _ => rfl, fun _ => rfl⟩

theorem readsText_template (below : List Opener) : ReadsText (.template :: below) true :=
  ⟨fun _ => rfl, fun _ => rfl⟩

section Expression

variable {opener : Opener} (ho : opener ≠ .template) (below : List Opener) (cs : List Char)
include ho

theorem lexeme_expression : lexeme? (opener :: below) cs = expressionLexeme? opener cs := by
  cases opener with
  | template => contradiction
  | _ => rfl

theorem skip_expression : skip (opener :: below) cs = Text.dropBlanks cs := by
  cases opener with
  | template => contradiction
  | _ => rfl

end Expression

theorem openAfter_append {opened : List Opener} {kind : TokenKind} (h : Fits opened kind)
    (below : List Opener) : openAfter (opened ++ below) kind = openAfter opened kind ++ below := by
  cases opened with
  | nil =>
    rcases h with hk | hk
    · rw [show kind = .string from hk]
      rfl
    · rw [show kind = .expressionStart from hk]
      rfl
  | cons opener opened =>
    unfold openAfter
    split
    · rfl
    · split <;> rfl

namespace State

variable {σ τ : State} {t : Token} {below : List Opener} {tail : List Char} {inTemplate : Bool}

def embed (σ : State) (below : List Opener) (tail : List Char) : State :=
  ⟨σ.opened ++ below, σ.position, σ.rest ++ tail⟩

theorem ahead_ne_nil (h : σ.next? = some (t, τ)) : σ.ahead ≠ [] := by
  intro ha
  rw [next?, ha, lexeme_nil] at h
  contradiction

theorem rest_ne_nil (h : σ.next? = some (t, τ)) : σ.rest ≠ [] := by
  intro hr
  have hs := skip_suffix σ.opened σ.rest
  rw [hr] at hs
  exact ahead_ne_nil h (by rw [ahead, hr]; exact List.suffix_nil.1 hs)

theorem ahead_embed (hbelow : ReadsText below inTemplate) (h : σ.ahead ≠ []) :
    (σ.embed below tail).ahead = σ.ahead ++ tail := by
  obtain ⟨opened, position, rest⟩ := σ
  cases opened with
  | nil => exact hbelow.skip_eq _
  | cons opener opened =>
    by_cases ho : opener = .template
    · rw [ho]
      rfl
    · have hs := skip_expression ho
      simp only [ahead, embed, List.cons_append, hs] at h ⊢
      exact dropBlanks_append h tail

theorem endsWord_of_next {opener : Opener} (ho : opener ≠ .template) {opened : List Opener}
    (hopened : τ.opened = opener :: opened) (h : τ.next? ≠ none) : EndsWord τ.rest := by
  obtain ⟨⟨u, υ⟩, hn⟩ := Option.ne_none_iff_exists'.1 h
  have hne := ahead_ne_nil hn
  have hahead : τ.ahead = Text.dropBlanks τ.rest := by rw [ahead, hopened, skip_expression ho]
  rw [next?, hopened, lexeme_expression ho] at hn
  cases hd : τ.ahead with
  | nil => exact absurd hd hne
  | cons c ds =>
    refine ⟨c, ds, hahead.symm.trans hd, fun hc => ?_⟩
    rw [hd, hc, expressionLexeme_point] at hn
    contradiction

theorem lexeme_embed {l : Lexeme} (hbelow : ReadsText below inTemplate)
    (hl : lexeme? σ.opened σ.ahead = some l)
    (hgo : (σ.after l).opened ≠ [] → (σ.after l).next? ≠ none)
    (htext : σ.opened = [] → l.kind = .string →
      (inTemplate = true → '`' ∉ l.value) ∧ EndsText inTemplate (l.rest ++ tail)) :
    lexeme? (σ.opened ++ below) (σ.ahead ++ tail) = some (l.extend tail) := by
  have hflat : l.kind.isFlat = true → (σ.after l).opened = σ.opened := fun hf =>
    openAfter_of_isFlat hf σ.opened
  cases ho : σ.opened with
  | nil =>
    rw [ho] at hl
    rw [List.nil_append, hbelow.lexeme_eq]
    exact textLexeme_extend hl (by simp) (htext ho)
  | cons opener opened =>
    rw [ho] at hl
    by_cases ht : opener = .template
    · subst ht
      refine textLexeme_extend hl (fun _ => rfl) fun hk => ?_
      obtain ⟨-, hplain, hends⟩ := textLexeme_string hl hk
      have hopen : (σ.after l).opened ≠ [] := by
        rw [hflat (by rw [hk]; rfl), ho]
        simp
      obtain ⟨⟨u, υ⟩, hn⟩ := Option.ne_none_iff_exists'.1 (hgo hopen)
      exact ⟨hplain.noBacktick, hends.extend (rest_ne_nil hn) tail⟩
    · rw [lexeme_expression ht] at hl
      rw [List.cons_append, lexeme_expression ht]
      refine expressionLexeme_extend hl (fun hf => ?_) tail
      have hopen := (hflat hf).trans ho
      exact endsWord_of_next ht hopen (hgo (by rw [hopen]; simp))

theorem aheadPosition_embed (h : (σ.embed below tail).ahead = σ.ahead ++ tail) :
    (σ.embed below tail).aheadPosition = σ.aheadPosition := by
  have hle := length_skip_le σ.opened σ.rest
  rw [aheadPosition, aheadPosition, h, embed]
  simp only [List.length_append]
  omega

theorem after_embed (h : (σ.embed below tail).ahead = σ.ahead ++ tail) {l : Lexeme}
    (hf : Fits σ.opened l.kind) :
    (σ.embed below tail).after (l.extend tail) = (σ.after l).embed below tail := by
  have hafter : (σ.embed below tail).after (l.extend tail) =
      ⟨openAfter (σ.opened ++ below) l.kind, (σ.embed below tail).aheadPosition +
        ((σ.embed below tail).ahead.length - (l.rest ++ tail).length), l.rest ++ tail⟩ := rfl
  rw [hafter, openAfter_append hf, aheadPosition_embed h, h, List.length_append,
    List.length_append, Nat.add_sub_add_right]
  rfl

theorem next_embed (hbelow : ReadsText below inTemplate) (hn : σ.next? = some (t, τ))
    (hgo : τ.opened ≠ [] → τ.next? ≠ none)
    (htext : σ.opened = [] → t.kind = .string →
      (inTemplate = true → '`' ∉ t.value.toList) ∧ EndsText inTemplate (τ.rest ++ tail)) :
    (σ.embed below tail).next? = some (t, τ.embed below tail) := by
  have hfits := next_fits hn
  have hahead : (σ.embed below tail).ahead = σ.ahead ++ tail :=
    ahead_embed hbelow (ahead_ne_nil hn)
  obtain ⟨l, hl, rfl, rfl⟩ := exists_lexeme_of_next hn
  rw [String.toList_ofList] at htext
  have hl' : lexeme? (σ.embed below tail).opened (σ.embed below tail).ahead =
      some (l.extend tail) := by
    rw [hahead]
    exact lexeme_embed hbelow hl hgo htext
  rw [next_of_lexeme hl', aheadPosition_embed hahead, after_embed hahead hfits]
  rfl

theorem endsText_of_next (hn : σ.next? = some (t, τ)) (ho : σ.opened = []) (hk : t.kind = .string) :
    σ.rest = t.value.toList ++ τ.rest ∧ IsPlain false t.value.toList ∧ EndsText false τ.rest ∧
      τ.opened = [] := by
  obtain ⟨opened, position, rest⟩ := σ
  subst ho
  obtain ⟨l, hl, rfl, rfl⟩ := exists_lexeme_of_next hn
  obtain ⟨hcs, hplain, hends⟩ := textLexeme_string hl hk
  rw [String.toList_ofList]
  exact ⟨hcs, hplain, hends, congrArg (openAfter []) hk⟩

end State

def State.NoBacktick (σ : State) : Prop :=
  ∀ ts τ t υ, Emits σ ts τ → τ.next? = some (t, υ) → τ.opened = [] → t.kind = .string →
    '`' ∉ t.value.toList

namespace State

variable {σ τ : State} {t : Token}

theorem noBacktick_iff (hn : σ.next? = some (t, τ)) : σ.NoBacktick ↔
    (σ.opened = [] → t.kind = .string → '`' ∉ t.value.toList) ∧ τ.NoBacktick := by
  constructor
  · intro h
    exact ⟨h [] σ t τ (.stay σ) hn, fun ts υ u φ hts => h (t :: ts) υ u φ (.next hn hts)⟩
  · rintro ⟨ht, hτ⟩ ts υ u φ hts hu
    cases hts with
    | stay =>
      cases hn.symm.trans hu
      exact ht
    | next hn' hts =>
      cases hn.symm.trans hn'
      exact hτ _ υ u φ hts hu

theorem noBacktick_of_end (h : σ.next? = none) : σ.NoBacktick := by
  intro ts υ u φ hts hu
  cases hts with
  | stay => simp [h] at hu
  | next hn => simp [h] at hn

end State

theorem Emits.embed {σ ρ : State} {ts : List Token} {below : List Opener} {tail : List Char}
    {inTemplate : Bool} (h : Emits σ ts ρ) (hρ : ρ.opened = []) (hbelow : ReadsText below inTemplate)
    (hplain : inTemplate = true → σ.NoBacktick)
    (hlast : ρ.rest = [] → (ts.map Token.kind).getLast? = some .string → EndsText inTemplate tail) :
    Emits (σ.embed below tail) ts (ρ.embed below tail) := by
  induction h with
  | stay σ => exact .stay _
  | @next σ τ ρ t ts hn hrest ih =>
    have hgo : τ.opened ≠ [] → τ.next? ≠ none := by
      intro ho
      cases hrest with
      | stay => exact absurd hρ ho
      | next hn' => simp [hn']
    have htext : σ.opened = [] → t.kind = .string →
        (inTemplate = true → '`' ∉ t.value.toList) ∧ EndsText inTemplate (τ.rest ++ tail) := by
      intro ho hk
      obtain ⟨-, -, hends, -⟩ := State.endsText_of_next hn ho hk
      refine ⟨fun ht => ((State.noBacktick_iff hn).1 (hplain ht)).1 ho hk, ?_⟩
      by_cases hr : τ.rest = []
      · -- Nothing is left after this text, so it is the last token.
        cases hrest with
        | stay =>
          rw [hr]
          exact hlast hr (by simp [hk])
        | next hn' => exact absurd hr (State.rest_ne_nil hn')
      · exact (hends.weaken inTemplate).extend hr tail
    have hplain' : inTemplate = true → τ.NoBacktick := fun ht =>
      ((State.noBacktick_iff hn).1 (hplain ht)).2
    have hlast' : ρ.rest = [] → (ts.map Token.kind).getLast? = some .string →
        EndsText inTemplate tail := by
      intro hr hts
      refine hlast hr ?_
      rw [List.map_cons, List.getLast?_cons, hts]
      rfl
    exact .next (State.next_embed hbelow hn hgo htext) (ih hρ hplain' hlast')

theorem State.next_at {σ τ : State} {t : Token} (hn : σ.next? = some (t, τ)) (position : Nat) :
    ∃ position' u, State.next? ⟨σ.opened, position, σ.rest⟩ =
      some (u, ⟨τ.opened, position', τ.rest⟩) ∧ u.unplaced = t.unplaced := by
  obtain ⟨l, hl, rfl, rfl⟩ := exists_lexeme_of_next hn
  exact ⟨_, _, next_of_lexeme (σ := ⟨σ.opened, position, σ.rest⟩) hl, rfl⟩

theorem Emits.exists_at {σ ρ : State} {ts : List Token} (h : Emits σ ts ρ) (position : Nat) :
    ∃ position' us, Emits ⟨σ.opened, position, σ.rest⟩ us ⟨ρ.opened, position', ρ.rest⟩ ∧
      us.map Token.unplaced = ts.map Token.unplaced := by
  induction h generalizing position with
  | stay σ => exact ⟨position, [], .stay _, rfl⟩
  | @next σ τ ρ t ts hn _ ih =>
    obtain ⟨between, u, hu, hsame⟩ := State.next_at hn position
    obtain ⟨position', us, hus, hrest⟩ := ih between
    exact ⟨position', u :: us, .next hu hus, by rw [List.map_cons, List.map_cons, hsame, hrest]⟩

theorem State.NoBacktick.at {opened : List Opener} {position : Nat} {rest : List Char}
    (h : State.NoBacktick ⟨opened, position, rest⟩) (position' : Nat) :
    State.NoBacktick ⟨opened, position', rest⟩ := by
  intro ts τ t υ hτ hn ho hk
  obtain ⟨between, us, hus, -⟩ := hτ.exists_at position
  obtain ⟨stop, u, hu, hsame⟩ := next_at hn between
  have hkind : u.kind = t.kind := (congrArg Token.kind hsame :)
  have hvalue : u.value = t.value := (congrArg Token.value hsame :)
  rw [← hvalue]
  exact h us _ u _ hus hu ho (hkind.trans hk)

end Scan

section Reading

open Scan

variable {position position' : Nat} {cs rest tail : List Char} {ts : List Token} {p : Phrase}
  {below : List Opener} {inTemplate : Bool} {s : Assembly}

theorem map_kind_of_unplaced {us : List Token}
    (h : us.map Token.unplaced = ts.map Token.unplaced) :
    us.map Token.kind = ts.map Token.kind := by
  have hk := congrArg (List.map Token.kind) h
  rw [List.map_map, List.map_map] at hk
  exact hk

/-- A text that is a phrase is read where plain text is, and the expressions of the phrase are
handed over one by one. If plain text is the last of it, it has to end there. -/
theorem reads_nested (he : Emits ⟨[], position, cs⟩ ts ⟨[], position', rest⟩)
    (hr : Assembly.start.run ts = .ok ⟨p, []⟩) (hbelow : ReadsText below inTemplate)
    (hplain : inTemplate = true → State.NoBacktick ⟨[], position, cs⟩)
    (hlast : rest = [] → (ts.map Token.kind).getLast? = some .string → EndsText inTemplate tail)
    (hs : s.AtText) :
    ReadsTo below (cs ++ tail) s below (rest ++ tail) (p.foldl Assembly.deliver s) := by
  intro start
  obtain ⟨stop, us, hus, hsame⟩ := he.exists_at start
  have hrun : Assembly.start.run us = .ok ⟨p, []⟩ := Assembly.run_of_unplaced hsame.symm hr
  have hlast' : rest = [] → (us.map Token.kind).getLast? = some .string →
      EndsText inTemplate tail := by rwa [map_kind_of_unplaced hsame]
  have hembed := hus.embed rfl hbelow (fun ht => (hplain ht).at start) hlast'
  exact ⟨stop, us, hembed, Assembly.run_onTop_ok (s := .start) hs hus rfl hrun⟩

end Reading

end MessageCatalog
