import MessageCatalog.Proofs.FollowingText
import MessageCatalog.Proofs.Nesting
import MessageCatalog.Proofs.Spans

/-!
# Blanks put in

Before a token that is read in an expression, between a name and the sign that makes it a call or a
property, and at the end of a text that ends within an expression, any blanks may be put in. The
tokens before them stay what they are, since a lexeme ends alike with blanks put in ahead of it; the
tokens after them are the same, only further on. So the text is the same phrase, or has the same
syntax error, at most further on too.
-/
namespace MessageCatalog
open Text

namespace Scan

variable {σ τ ρ : State} {t : Token} {ts us : List Token} {opened : List Opener}
  {blanks cs front after : List Char} {l : Lexeme}

theorem skip_of_lexeme (hl : lexeme? opened cs = some l) : skip opened cs = cs := by
  cases opened with
  | nil => rfl
  | cons opener below =>
    by_cases ho : opener = .template
    · rw [ho]
      rfl
    · rw [lexeme_expression ho] at hl
      rw [skip_expression ho, dropBlanks_of_expressionLexeme hl]

theorem skip_append_blanks (hb : ∀ c ∈ blanks, isBlank c = true ∧ Mode.ofOpen opened = .expression)
    (cs : List Char) : skip opened (blanks ++ cs) = skip opened cs := by
  cases blanks with
  | nil => rfl
  | cons b blanks =>
    have hmode := (hb b List.mem_cons_self).2
    simp only [skip, hmode]
    exact dropBlanks_append_of_blank (fun c hc => (hb c hc).1) cs

theorem State.next_of_blanks
    (hb : ∀ c ∈ blanks, isBlank c = true ∧ Mode.ofOpen opened = .expression)
    (hl : lexeme? opened cs = some l) (position : Nat) :
    State.next? ⟨opened, position, blanks ++ cs⟩ =
      some (⟨l.kind, String.ofList l.value, position + blanks.length⟩,
        ⟨openAfter opened l.kind, position + blanks.length + (cs.length - l.rest.length), l.rest⟩) := by
  have ha : State.ahead ⟨opened, position, blanks ++ cs⟩ = cs :=
    (skip_append_blanks hb cs).trans (skip_of_lexeme hl)
  have hl' : lexeme? opened (State.ahead ⟨opened, position, blanks ++ cs⟩) = some l := by rwa [ha]
  have hposition : State.aheadPosition ⟨opened, position, blanks ++ cs⟩ =
      position + blanks.length := by
    rw [aheadPosition, ha, List.length_append, Nat.add_sub_cancel]
  rw [next_of_lexeme hl', after, hposition, ha]

theorem State.exists_blanks_of_next (h : σ.next? = some (t, τ)) :
    ∃ blanks l, σ.rest = blanks ++ σ.ahead ∧
      (∀ c ∈ blanks, isBlank c = true ∧ Mode.ofOpen σ.opened = .expression) ∧
      lexeme? σ.opened σ.ahead = some l ∧
      t = ⟨l.kind, String.ofList l.value, σ.position + blanks.length⟩ ∧
      τ = ⟨openAfter σ.opened l.kind,
        σ.position + blanks.length + (σ.ahead.length - l.rest.length), l.rest⟩ := by
  obtain ⟨l, hl, ht, hτ⟩ := exists_lexeme_of_next h
  obtain ⟨blanks, hrest, hb⟩ := exists_blanks_of_skip σ.opened σ.rest
  have hnext := next_of_blanks hb hl σ.position
  have hσ : State.mk σ.opened σ.position (blanks ++ σ.ahead) = σ := by
    rw [ahead, ← hrest]
  rw [hσ, h, Option.some.injEq, Prod.mk.injEq] at hnext
  exact ⟨blanks, l, hrest, hb, hl, hnext.1, hnext.2⟩

theorem State.point_not_mem_head (hmode : Mode.ofOpen τ.opened = .expression)
    (hok : τ.tokens = .ok us) : '.' ∉ τ.rest.head? := by
  intro hpoint
  obtain ⟨ds, hds⟩ := List.head?_eq_some_iff.1 hpoint
  have ha : τ.ahead = '.' :: ds := by
    rw [ahead, skip, hmode, hds]
    exact dropBlanks_cons (by decide +kernel)
  refine tokens_ne_ok_of_stuck (by simp [ha]) ?_ us hok
  rw [next?, ha]
  obtain ⟨opened, position, rest⟩ := τ
  cases opened with
  | nil => contradiction
  | cons opener below =>
    have ho : opener ≠ .template := by
      rintro rfl
      contradiction
    rw [lexeme_expression ho, expressionLexeme_point]
    rfl

theorem lexeme_followed {rest' : List Char} (hl : lexeme? opened cs = some l)
    (hr : EndsAlike l.rest rest')
    (hpoint : Mode.ofOpen opened = .expression → l.kind = .number → '.' ∉ l.rest.head?)
    (htext : ∀ inTemplate, ReadsText opened inTemplate → l.kind = .string →
      EndsText inTemplate rest') :
    ∃ span, cs = span ++ l.rest ∧ lexeme? opened (span ++ rest') = some (l.followedBy rest') := by
  have hplain {inTemplate : Bool} (ho : ReadsText opened inTemplate) :
      ∃ span, cs = span ++ l.rest ∧ lexeme? opened (span ++ rest') = some (l.followedBy rest') := by
    rw [ho.lexeme_eq] at hl
    obtain ⟨span, hcs, hspan⟩ := textLexeme_followed hl (htext _ ho)
    exact ⟨span, hcs, by rw [ho.lexeme_eq, hspan]⟩
  cases opened with
  | nil => exact hplain readsText_nil
  | cons opener below =>
    by_cases ho : opener = .template
    · subst ho
      exact hplain (readsText_template below)
    · have hmode : Mode.ofOpen (opener :: below) = .expression := by
        cases opener with
        | template => contradiction
        | _ => rfl
      rw [lexeme_expression ho] at hl
      obtain ⟨span, hcs, hspan⟩ := expressionLexeme_followed hl hr (hpoint hmode)
      exact ⟨span, hcs, by rw [lexeme_expression ho, hspan]⟩

theorem Emits.position_bounds (h : Emits σ ts ρ) :
    σ.position ≤ ρ.position ∧ ∀ t ∈ ts, σ.position ≤ t.position ∧ t.position < ρ.position := by
  induction h with
  | stay σ => simp
  | next hn _ ih =>
    obtain ⟨blanks, span, htaken⟩ := State.exists_taken hn
    have hspan := List.length_pos_iff.2 htaken.nonempty
    have hposition := htaken.position_eq
    have hstop := htaken.stop_eq
    obtain ⟨hle, hts⟩ := ih
    refine ⟨by omega, fun u hu => ?_⟩
    rcases List.mem_cons.1 hu with rfl | hu
    · omega
    · have := hts u hu
      omega

theorem ReadsText.mode_ne {inTemplate : Bool} (h : ReadsText opened inTemplate) :
    Mode.ofOpen opened ≠ .expression := by
  intro hmode
  have hskip := h.skip_eq [' ']
  rw [skip, hmode] at hskip
  exact absurd hskip (by decide +kernel)

theorem State.opened_of_isFlat (hn : σ.next? = some (t, τ)) (hk : t.kind.isFlat = true) :
    τ.opened = σ.opened := by
  obtain ⟨l, -, rfl, rfl⟩ := exists_lexeme_of_next hn
  exact openAfter_of_isFlat hk σ.opened

theorem State.kind_eq_string_iff {inTemplate : Bool} (ho : ReadsText σ.opened inTemplate)
    (hn : σ.next? = some (t, τ)) : t.kind = .string ↔ textEnds inTemplate σ.rest = false := by
  obtain ⟨l, hl, rfl, -⟩ := exists_lexeme_of_next hn
  rw [ho.lexeme_eq, ahead, ho.skip_eq] at hl
  exact Scan.kind_eq_string_iff hl

theorem State.endsText_insert {inTemplate : Bool} {rest' : List Char} {υ : State}
    (ho : ReadsText σ.opened inTemplate) (hn : σ.next? = some (t, τ)) (hk : t.kind = .string)
    (hts : Emits τ ts ρ) (hmode : Mode.ofOpen ρ.opened = .expression)
    (hwalk : Emits ⟨τ.opened, τ.position, rest'⟩ ts υ) : EndsText inTemplate rest' := by
  have hopened : τ.opened = σ.opened := State.opened_of_isFlat hn (by rw [hk]; rfl)
  have hends : EndsText inTemplate τ.rest := by
    obtain ⟨l, hl, rfl, rfl⟩ := exists_lexeme_of_next hn
    rw [ho.lexeme_eq] at hl
    exact (textLexeme_string hl hk).2.2
  rw [← hopened] at ho
  cases hts with
  | stay => exact absurd hmode ho.mode_ne
  | next hn' _ =>
    cases hwalk with
    | next hn'' _ =>
      have hkind := State.kind_eq_string_iff ho hn'
      have hkind' := State.kind_eq_string_iff (σ := ⟨τ.opened, τ.position, rest'⟩) ho hn''
      have htext := hends.resolve_left (rest_ne_nil hn')
      rw [htext] at hkind
      simp only [Bool.true_eq_false, iff_false] at hkind
      exact .inr (by simpa [hkind] using hkind')

theorem State.next_insert {rest' : List Char} (hn : σ.next? = some (t, τ))
    (hr : EndsAlike τ.rest rest') (hok : τ.tokens = .ok us)
    (htext : ∀ inTemplate, ReadsText σ.opened inTemplate → t.kind = .string →
      EndsText inTemplate rest') :
    ∃ span, σ.rest = span ++ τ.rest ∧
      State.next? ⟨σ.opened, σ.position, span ++ rest'⟩ =
        some (t, ⟨τ.opened, τ.position, rest'⟩) := by
  obtain ⟨lead, l, hσ, hlead, hl, rfl, rfl⟩ := State.exists_blanks_of_next hn
  have hpoint : Mode.ofOpen σ.opened = .expression → l.kind = .number → '.' ∉ l.rest.head? := by
    intro hmode hk
    have hopened := State.opened_of_isFlat hn (show l.kind.isFlat = true by rw [hk]; rfl)
    exact State.point_not_mem_head ((congrArg Mode.ofOpen hopened).trans hmode) hok
  obtain ⟨span, hahead, hspan⟩ := lexeme_followed hl hr hpoint htext
  have hnext := State.next_of_blanks hlead hspan σ.position
  refine ⟨lead ++ span, ?_, ?_⟩
  · rw [List.append_assoc, ← hahead, ← hσ]
  · rw [List.append_assoc, hnext, hahead]
    simp [Lexeme.followedBy]

theorem Emits.insert (h : Emits σ ts ρ) (hρ : ρ.rest = front ++ after)
    (hmode : Mode.ofOpen ρ.opened = .expression) (hok : ρ.tokens = .ok us)
    (hb : ∀ c ∈ blanks, isBlank c = true) :
    ∃ front', σ.rest = front' ++ after ∧
      Emits ⟨σ.opened, σ.position, front' ++ (blanks ++ after)⟩ ts
        ⟨ρ.opened, ρ.position, front ++ (blanks ++ after)⟩ := by
  induction h with
  | stay σ => exact ⟨front, hρ, .stay _⟩
  | @next σ τ ρ t ts hn hts ih =>
    obtain ⟨front', hτ, hwalk⟩ := ih hρ hmode hok
    have hrest : τ.tokens = .ok (ts ++ us) := by
      rw [hts.tokens_eq, hok]
      rfl
    have halike := endsAlike_blanks hb front' after
    rw [← hτ] at halike
    obtain ⟨span, hσ, hnext⟩ := State.next_insert hn halike hrest fun inTemplate ho hk =>
      State.endsText_insert ho hn hk hts hmode hwalk
    refine ⟨span ++ front', by rw [hσ, hτ, List.append_assoc], ?_⟩
    rw [List.append_assoc]
    exact .next hnext hwalk

theorem Emits.shift (h : Emits σ ts ρ) (width : Nat) :
    Emits ⟨σ.opened, σ.position + width, σ.rest⟩ (ts.map (Token.relocate (· + width)))
      ⟨ρ.opened, ρ.position + width, ρ.rest⟩ := by
  induction h with
  | stay σ => exact .stay _
  | @next σ τ ρ t ts hn _ ih =>
    obtain ⟨lead, l, hσ, hlead, hl, rfl, rfl⟩ := State.exists_blanks_of_next hn
    have hnext := State.next_of_blanks hlead hl (σ.position + width)
    rw [← hσ] at hnext
    have hcomm : σ.position + width + lead.length = σ.position + lead.length + width := by omega
    have hcomm' : σ.position + lead.length + width + (σ.ahead.length - l.rest.length) =
        σ.position + lead.length + (σ.ahead.length - l.rest.length) + width := by omega
    rw [hcomm, hcomm'] at hnext
    exact .next hnext ih

/-- The places of a text, between what is before them and what is after, that take blanks. -/
inductive TakesBlanks (ts : List Token) (before after : List Char) : Prop where
  | token {t : Token} : t ∈ ts → t.position = before.length →
      Mode.ofOpen (openedAt [] ts t.position) = .expression → TakesBlanks ts before after
  | afterName {t : Token} {blanks : List Char} : t ∈ ts →
      t.kind = .functionCall ∨ t.kind = .propertyName → (∀ c ∈ blanks, isBlank c = true) →
      before.drop t.position = t.value.toList ++ blanks → TakesBlanks ts before after
  | atEnd : after = [] →
      Mode.ofOpen (ts.foldl (fun opened t => openAfter opened t.kind) []) = .expression →
      TakesBlanks ts before after

def shiftFrom (place width position : Nat) : Nat :=
  if position < place then position else position + width

theorem relocate_before {place : Nat} (width : Nat) (h : ∀ t ∈ ts, t.position < place) :
    ts.map (Token.relocate (shiftFrom place width)) = ts := by
  refine (List.map_congr_left fun t ht => ?_).trans (List.map_id ts)
  rw [Token.relocate, shiftFrom, if_pos (h t ht)]
  rfl

theorem relocate_after {place : Nat} (width : Nat) (h : ∀ t ∈ ts, place ≤ t.position) :
    ts.map (Token.relocate (shiftFrom place width)) = ts.map (Token.relocate (· + width)) := by
  refine List.map_congr_left fun t ht => ?_
  rw [Token.relocate, shiftFrom, if_neg (Nat.not_lt.2 (h t ht))]
  rfl

theorem tokens_shift (h : σ.tokens = .ok ts) (width : Nat) :
    State.tokens ⟨σ.opened, σ.position + width, σ.rest⟩ =
      .ok (ts.map (Token.relocate (· + width))) := by
  rw [← List.append_nil ts] at h
  obtain ⟨υ, hυ, hend⟩ := exists_emits_of_tokens h
  have ha := ahead_eq_nil_of_tokens hend
  exact tokens_of_emits (hυ.shift width) ha

theorem tokens_eq_of_ahead (ho : σ.opened = τ.opened) (ha : σ.ahead = τ.ahead)
    (hp : σ.aheadPosition = τ.aheadPosition) : σ.tokens = τ.tokens := by
  have hnext : σ.next? = τ.next? := by simp only [State.next?, State.after, ho, ha, hp]
  cases hτ : τ.ahead with
  | nil => rw [State.tokens_of_ahead_nil hτ, State.tokens_of_ahead_nil (ha.trans hτ)]
  | cons c rest =>
    cases hn : τ.next? with
    | none =>
      rw [State.tokens_of_stuck hτ hn, State.tokens_of_stuck (ha.trans hτ) (hnext.trans hn), ho, hp]
    | some s => rw [State.tokens_of_next hn, State.tokens_of_next (hnext.trans hn)]

theorem tokens_skip (hb : ∀ c ∈ blanks, isBlank c = true ∧ Mode.ofOpen opened = .expression)
    (position : Nat) (cs : List Char) :
    State.tokens ⟨opened, position, blanks ++ cs⟩ =
      State.tokens ⟨opened, position + blanks.length, cs⟩ := by
  have ha : State.ahead ⟨opened, position, blanks ++ cs⟩ =
      State.ahead ⟨opened, position + blanks.length, cs⟩ := skip_append_blanks hb cs
  refine tokens_eq_of_ahead rfl ha ?_
  have hle := length_skip_le opened cs
  rw [State.aheadPosition, State.aheadPosition, ha]
  simp only [State.ahead, List.length_append]
  omega

theorem position_le_of_tokens (h : σ.tokens = .ok ts) : ∀ t ∈ ts, σ.position ≤ t.position := by
  rw [← List.append_nil ts] at h
  obtain ⟨υ, hυ, -⟩ := exists_emits_of_tokens h
  exact fun t ht => (hυ.position_bounds.2 t ht).1

theorem tokens_insert_blanks (hρ : ρ.rest = front ++ after)
    (hmode : Mode.ofOpen ρ.opened = .expression) (hfront : ∀ c ∈ front, isBlank c = true)
    (hb : ∀ c ∈ blanks, isBlank c = true) (hok : ρ.tokens = .ok ts) :
    State.tokens ⟨ρ.opened, ρ.position, front ++ (blanks ++ after)⟩ =
      .ok (ts.map (Token.relocate (shiftFrom (ρ.position + front.length) blanks.length))) := by
  obtain ⟨opened, position, rest⟩ := ρ
  change rest = front ++ after at hρ
  subst hρ
  have hblank {bs : List Char} (hbs : ∀ c ∈ bs, isBlank c = true) :
      ∀ c ∈ bs, isBlank c = true ∧ Mode.ofOpen opened = .expression :=
    fun c hc => ⟨hbs c hc, hmode⟩
  rw [tokens_skip (hblank hfront)] at hok ⊢
  rw [tokens_skip (hblank hb), tokens_shift hok,
    relocate_after _ (position_le_of_tokens hok)]

theorem exists_of_blanks_append {d : Char} {cs ds rest : List Char}
    (hb : ∀ c ∈ blanks, isBlank c = true) (hd : isBlank d = false)
    (h : blanks ++ cs = ds ++ d :: rest) : ∃ es, ds = blanks ++ es ∧ cs = es ++ d :: rest := by
  rcases List.append_eq_append_iff.1 h with ⟨es, hds, hcs⟩ | ⟨es, hblanks, hrest⟩
  · exact ⟨es, hds, hcs⟩
  · cases es with
    | nil => exact ⟨[], by simpa using hblanks.symm, by simpa using hrest.symm⟩
    | cons e es =>
      cases hrest
      rw [hb d (by simp [hblanks])] at hd
      contradiction

theorem Spells.exists_nameEnd {mode : Mode} {kind : TokenKind} {value : String}
    {span rest : List Char} (h : Spells mode kind value span rest)
    (hk : kind = .functionCall ∨ kind = .propertyName) :
    mode = .expression ∧ ∃ blanks d, nameEnd? kind = some d ∧ isBlank d = false ∧
      (∀ c ∈ blanks, isBlank c = true) ∧ span = value.toList ++ (blanks ++ [d]) := by
  cases h with
  | call _ hb _ => exact ⟨rfl, _, '(', rfl, by decide +kernel, hb, rfl⟩
  | property _ hb _ => exact ⟨rfl, _, ':', rfl, by decide +kernel, hb, rfl⟩
  | sign _ _ hs => rcases hk with rfl | rfl <;> contradiction
  | keyword hkeyword _ => rcases keyword_kind hkeyword with rfl | rfl | rfl <;> simp at hk
  | text | quoted | number | identifier => simp at hk

theorem lexeme_named {name : String} {kind : TokenKind} {d : Char}
    (hmode : Mode.ofOpen opened = .expression) (hn : IsName name)
    (hb : ∀ c ∈ blanks, isBlank c = true) (hd : nameEnd? kind = some d) (rest : List Char) :
    lexeme? opened (name.toList ++ (blanks ++ d :: rest)) = some ⟨kind, name.toList, rest⟩ := by
  cases opened with
  | nil => contradiction
  | cons opener below =>
    have ho : opener ≠ .template := by
      rintro rfl
      contradiction
    rw [lexeme_expression ho, expressionLexeme_word hn.nonempty hn.word hn.start]
    exact wordLexeme?_named hn.nonempty hn.word (keyword?_eq_none hn.notKeyword) hb hd rest

theorem State.next_named {lead : List Char} {name : String} {kind : TokenKind} {d : Char}
    (hlead : ∀ c ∈ lead, isBlank c = true ∧ Mode.ofOpen opened = .expression)
    (hmode : Mode.ofOpen opened = .expression) (hn : IsName name)
    (hb : ∀ c ∈ blanks, isBlank c = true) (hd : nameEnd? kind = some d) (position : Nat)
    (rest : List Char) :
    State.next? ⟨opened, position, lead ++ (name.toList ++ (blanks ++ d :: rest))⟩ =
      some (⟨kind, name, position + lead.length⟩, ⟨openAfter opened kind,
        position + lead.length + (name.toList ++ (blanks ++ [d])).length, rest⟩) := by
  rw [next_of_blanks hlead (lexeme_named hmode hn hb hd rest), String.ofList_toList]
  have hlength : (name.toList ++ (blanks ++ d :: rest)).length - rest.length =
      (name.toList ++ (blanks ++ [d])).length := by
    simp only [List.length_append, List.length_cons, List.length_nil]
    omega
  dsimp only
  rw [hlength]

theorem tokens_insert_after_name (hn : ρ.next? = some (t, τ)) (hτ : τ.tokens = .ok ts)
    (hk : t.kind = .functionCall ∨ t.kind = .propertyName) (hb : ∀ c ∈ blanks, isBlank c = true)
    {between : List Char} (hbetween : ∀ c ∈ between, isBlank c = true)
    {lead : List Char} (hlead : t.position = ρ.position + lead.length)
    (hρ : ρ.rest = lead ++ (t.value.toList ++ (between ++ after))) :
    Mode.ofOpen ρ.opened = .expression ∧
    State.tokens ⟨ρ.opened, ρ.position, lead ++ (t.value.toList ++ (between ++ (blanks ++ after)))⟩ =
      .ok ((t :: ts).map (Token.relocate (shiftFrom
        (ρ.position + (lead ++ (t.value.toList ++ between)).length) blanks.length))) := by
  obtain ⟨lead', span, htaken⟩ := State.exists_taken hn
  have hname : IsName t.value := htaken.spells.isName (.inr hk)
  obtain ⟨hmode, bs, d, hd, hdblank, hbs, rfl⟩ := htaken.spells.exists_nameEnd hk
  obtain ⟨rfl, hsame⟩ := List.append_inj (hρ.symm.trans htaken.rest_eq)
    (Nat.add_left_cancel (hlead.symm.trans htaken.position_eq))
  rw [List.append_assoc, List.append_assoc, List.singleton_append] at hsame
  obtain ⟨es, rfl, rfl⟩ :=
    exists_of_blanks_append hbetween hdblank (List.append_cancel_left hsame)
  have hall : ∀ c ∈ between ++ (blanks ++ es), isBlank c = true := by
    simp only [List.mem_append] at hbs ⊢
    rintro c (hc | hc | hc)
    · exact hbetween c hc
    · exact hb c hc
    · exact hbs c (.inr hc)
  have hnext := State.next_named htaken.blank hmode hname hall hd ρ.position τ.rest
  have hstop : ρ.position + lead.length +
      (t.value.toList ++ (between ++ (blanks ++ es) ++ [d])).length =
        τ.position + blanks.length := by
    rw [htaken.stop_eq, hlead]
    simp only [List.length_append]
    omega
  have hnonempty := List.length_pos_iff.2 hname.nonempty
  have hbefore : ∀ u ∈ [t], u.position <
      ρ.position + (lead ++ (t.value.toList ++ between)).length := by
    simp only [List.mem_singleton, forall_eq, List.length_append]
    omega
  have hafter : ∀ u ∈ ts, ρ.position + (lead ++ (t.value.toList ++ between)).length ≤
      u.position := by
    intro u hu
    have hu := position_le_of_tokens hτ u hu
    rw [htaken.stop_eq, hlead] at hu
    simp only [List.length_append] at hu ⊢
    omega
  have hassoc : between ++ (blanks ++ (es ++ d :: τ.rest)) =
      between ++ (blanks ++ es) ++ d :: τ.rest := by simp only [List.append_assoc]
  have hmap := congrArg₂ (· ++ ·) (relocate_before blanks.length hbefore)
    (relocate_after blanks.length hafter)
  refine ⟨hmode, ?_⟩
  rw [hassoc, State.tokens_of_next hnext, hstop, ← htaken.opened_eq, tokens_shift hτ, ← hlead]
  exact congrArg Except.ok hmap.symm

theorem openedAt_append_of_lt {place : Nat} (h : ∀ t ∈ ts, t.position < place)
    (us : List Token) : openedAt opened (ts ++ us) place =
      openedAt (ts.foldl (fun opened t => openAfter opened t.kind) opened) us place := by
  induction ts generalizing opened with
  | nil => rfl
  | cons t ts ih =>
    rw [List.cons_append, openedAt_cons_of_lt (h t List.mem_cons_self),
      ih fun u hu => h u (List.mem_cons_of_mem t hu), List.foldl_cons]

theorem exists_next_of_tokens (h : σ.tokens = .ok (t :: ts)) :
    ∃ τ, σ.next? = some (t, τ) ∧ τ.tokens = .ok ts := by
  obtain ⟨τ, hτ, hts⟩ := @exists_emits_of_tokens [t] ts σ h
  cases hτ with
  | next hn hstay => exact ⟨_, hn, hstay.eq_of_nil ▸ hts⟩

theorem Emits.in_text (h : Emits ⟨[], 0, cs⟩ ts ρ) : ρ.In cs := by
  have hstart : State.In cs ⟨[], 0, cs⟩ := ⟨[], rfl, rfl⟩
  exact (h.exists_covering hstart).2.1

theorem Emits.exists_front {before : List Char} (h : Emits ⟨[], 0, before ++ after⟩ ts ρ)
    (hle : ρ.position ≤ before.length) :
    ∃ read front, before = read ++ front ∧ read.length = ρ.position ∧ ρ.rest = front ++ after := by
  obtain ⟨read, htext, hread⟩ := h.in_text
  rcases List.append_eq_append_iff.1 htext with ⟨es, rfl, hafter⟩ | ⟨front, rfl, hrest⟩
  · have hes : es = [] := List.length_eq_zero_iff.1 (by
      rw [List.length_append] at hread
      omega)
    subst hes
    exact ⟨before, [], by simp, by simpa using hread, hafter.symm⟩
  · exact ⟨read, front, rfl, hread, hrest⟩

theorem tokens_insert {before : List Char} (hts : Emits ⟨[], 0, before ++ after⟩ ts ρ)
    (hρ : ρ.rest = front ++ after) (hmode : Mode.ofOpen ρ.opened = .expression)
    (hok : ρ.tokens = .ok us) (hb : ∀ c ∈ blanks, isBlank c = true)
    (hus : State.tokens ⟨ρ.opened, ρ.position, front ++ (blanks ++ after)⟩ =
      .ok (us.map (Token.relocate (shiftFrom (ρ.position + front.length) blanks.length)))) :
    State.tokens ⟨[], 0, before ++ (blanks ++ after)⟩ =
      .ok ((ts ++ us).map (Token.relocate (shiftFrom before.length blanks.length))) := by
  obtain ⟨front', hsplit, hwalk⟩ := hts.insert hρ hmode hok hb
  have hplace : before.length = ρ.position + front.length := by
    obtain ⟨read, htext, hread⟩ := hts.in_text
    have hlength := congrArg List.length htext
    rw [hρ] at hlength
    simp only [List.length_append] at hlength
    omega
  have hbefore : ∀ t ∈ ts, t.position < ρ.position + front.length := fun t ht =>
    Nat.lt_of_lt_of_le (hts.position_bounds.2 t ht).2 (Nat.le_add_right _ _)
  rw [List.append_cancel_right hsplit, hwalk.tokens_eq, hus, ← List.append_cancel_right hsplit,
    hplace, List.map_append, relocate_before _ hbefore]
  rfl

theorem State.position_le_of_next (h : σ.next? = some (t, τ)) : σ.position ≤ t.position := by
  obtain ⟨lead, span, htaken⟩ := exists_taken h
  rw [htaken.position_eq]
  exact Nat.le_add_right _ _

section Places

variable {before : List Char}

theorem tokens_insert_before_token
    (h : State.tokens ⟨[], 0, before ++ after⟩ = .ok (ts ++ t :: us))
    (hposition : t.position = before.length)
    (hmode : Mode.ofOpen (openedAt [] (ts ++ t :: us) t.position) = .expression)
    (hb : ∀ c ∈ blanks, isBlank c = true) :
    State.tokens ⟨[], 0, before ++ (blanks ++ after)⟩ =
      .ok ((ts ++ t :: us).map (Token.relocate (shiftFrom before.length blanks.length))) := by
  obtain ⟨ρ, hts, hok⟩ := exists_emits_of_tokens h
  obtain ⟨τ, hn, -⟩ := exists_next_of_tokens hok
  obtain ⟨lead, span, htaken⟩ := State.exists_taken hn
  have hle := State.position_le_of_next hn
  have hbefore : ∀ u ∈ ts, u.position < t.position := fun u hu =>
    Nat.lt_of_lt_of_le (hts.position_bounds.2 u hu).2 hle
  rw [openedAt_append_of_lt hbefore, openedAt_cons_of_le (Nat.le_refl _)] at hmode
  have hmode : Mode.ofOpen ρ.opened = .expression := by rw [hts.opened_eq, hmode]
  obtain ⟨read, front, rfl, hread, hρ⟩ := hts.exists_front (hposition ▸ hle)
  have hlength : front.length = lead.length := by
    rw [htaken.position_eq, List.length_append, hread] at hposition
    omega
  obtain ⟨rfl, -⟩ := List.append_inj (hρ.symm.trans htaken.rest_eq) hlength
  have hfront : ∀ c ∈ front, isBlank c = true := fun c hc => (htaken.blank c hc).1
  exact tokens_insert hts hρ hmode hok hb (tokens_insert_blanks hρ hmode hfront hb hok)

theorem tokens_insert_within_name
    (h : State.tokens ⟨[], 0, before ++ after⟩ = .ok (ts ++ t :: us))
    (hk : t.kind = .functionCall ∨ t.kind = .propertyName) {between : List Char}
    (hbetween : ∀ c ∈ between, isBlank c = true)
    (hdrop : before.drop t.position = t.value.toList ++ between)
    (hb : ∀ c ∈ blanks, isBlank c = true) :
    State.tokens ⟨[], 0, before ++ (blanks ++ after)⟩ =
      .ok ((ts ++ t :: us).map (Token.relocate (shiftFrom before.length blanks.length))) := by
  obtain ⟨ρ, hts, hok⟩ := exists_emits_of_tokens h
  obtain ⟨τ, hn, hτ⟩ := exists_next_of_tokens hok
  obtain ⟨lead, span, htaken⟩ := State.exists_taken hn
  have hle := State.position_le_of_next hn
  have hlt : t.position < before.length := by
    by_contra hge
    rw [List.drop_eq_nil_of_le (Nat.le_of_not_lt hge)] at hdrop
    exact (htaken.spells.isName (.inr hk)).nonempty (List.append_eq_nil_iff.1 hdrop.symm).1
  obtain ⟨read, front, rfl, hread, hρ⟩ := hts.exists_front (Nat.le_trans hle (Nat.le_of_lt hlt))
  rw [List.drop_append, List.drop_eq_nil_of_le (hread ▸ hle), List.nil_append, hread] at hdrop
  obtain ⟨first, rfl, hfirst⟩ : ∃ first, front = first ++ (t.value.toList ++ between) ∧
      t.position = ρ.position + first.length := by
    refine ⟨front.take (t.position - ρ.position), by rw [← hdrop, List.take_append_drop], ?_⟩
    rw [List.length_append] at hlt
    rw [List.length_take]
    omega
  have hrest : ρ.rest = first ++ (t.value.toList ++ (between ++ after)) := by
    rw [hρ, List.append_assoc, List.append_assoc]
  obtain ⟨hmode, hinsert⟩ := tokens_insert_after_name hn hτ hk hb hbetween hfirst hrest
  refine tokens_insert hts hρ hmode hok hb ?_
  rw [← hinsert, List.append_assoc, List.append_assoc]

theorem tokens_insert_at_end (h : State.tokens ⟨[], 0, before ++ []⟩ = .ok ts)
    (hmode : Mode.ofOpen (ts.foldl (fun opened t => openAfter opened t.kind) []) = .expression)
    (hb : ∀ c ∈ blanks, isBlank c = true) :
    State.tokens ⟨[], 0, before ++ (blanks ++ [])⟩ =
      .ok (ts.map (Token.relocate (shiftFrom before.length blanks.length))) := by
  rw [← List.append_nil ts] at h
  obtain ⟨ρ, hts, hok⟩ := exists_emits_of_tokens h
  have hmode : Mode.ofOpen ρ.opened = .expression := by rw [hts.opened_eq, hmode]
  obtain ⟨lead, hrest, hlead⟩ := exists_blanks_of_skip ρ.opened ρ.rest
  have hnil : skip ρ.opened ρ.rest = [] := ahead_eq_nil_of_tokens hok
  rw [hnil] at hrest
  have hblank : ∀ c ∈ lead, isBlank c = true := fun c hc => (hlead c hc).1
  have hinsert := tokens_insert hts hrest hmode hok hb
    (tokens_insert_blanks hrest hmode hblank hb hok)
  rwa [List.append_nil ts] at hinsert

theorem tokens_insert_of_takesBlanks (h : State.tokens ⟨[], 0, before ++ after⟩ = .ok ts)
    (hplace : TakesBlanks ts before after) (hb : ∀ c ∈ blanks, isBlank c = true) :
    State.tokens ⟨[], 0, before ++ (blanks ++ after)⟩ =
      .ok (ts.map (Token.relocate (shiftFrom before.length blanks.length))) := by
  cases hplace with
  | token ht hposition hmode =>
    obtain ⟨pre, post, rfl⟩ := List.append_of_mem ht
    exact tokens_insert_before_token h hposition hmode hb
  | afterName ht hk hbetween hdrop =>
    obtain ⟨pre, post, rfl⟩ := List.append_of_mem ht
    exact tokens_insert_within_name h hk hbetween hdrop hb
  | atEnd hafter hmode =>
    subst hafter
    exact tokens_insert_at_end h hmode hb

end Places

end Scan

open Scan

/-- Blanks put in before a token of an expression, after a name that is called or a property, or at
the end of a text that ends within an expression, change no token. The tokens after them are further
on, and the text is the same phrase, or has the same fault at the same token. -/
theorem parse_insert_blanks {before after blanks : String} {ts : List Token}
    (h : Token.scan (before ++ after) = .ok ts)
    (hplace : TakesBlanks ts before.toList after.toList)
    (hb : ∀ c ∈ blanks.toList, isBlank c = true) :
    Token.scan (before ++ blanks ++ after) =
      .ok (ts.map (Token.relocate (shiftFrom before.length blanks.length))) ∧
    Phrase.parse (before ++ blanks ++ after) = (Phrase.parse (before ++ after)).mapError
      (ParseError.relocate (shiftFrom before.length blanks.length)) := by
  have htext : (before ++ blanks ++ after).toList =
      before.toList ++ (blanks.toList ++ after.toList) := by
    rw [String.toList_append, String.toList_append, List.append_assoc]
  have hok : State.tokens ⟨[], 0, before.toList ++ after.toList⟩ = .ok ts := by
    rw [← String.toList_append]
    exact h
  have hscan : Token.scan (before ++ blanks ++ after) =
      .ok (ts.map (Token.relocate (shiftFrom before.length blanks.length))) := by
    rw [State.scan_eq_tokens, State.start, htext]
    exact tokens_insert_of_takesBlanks hok hplace hb
  refine ⟨hscan, ?_⟩
  rw [Phrase.parse_eq_ofTokens hscan, Phrase.parse_eq_ofTokens h, Phrase.ofTokens_relocate]

theorem parse_insert_blanks_after_name :
    let before := "a$\x7b [ f "
    let after := "(x) ) \x7d"
    let ts : List Token := [⟨.string, "a", 0⟩, ⟨.expressionStart, "$\x7b", 1⟩,
      ⟨.bracketStart, "[", 4⟩, ⟨.functionCall, "f", 6⟩, ⟨.identifier, "x", 9⟩,
      ⟨.parenEnd, ")", 10⟩, ⟨.parenEnd, ")", 12⟩, ⟨.expressionEnd, "\x7d", 14⟩]
    Token.scan (before ++ after) = .ok ts ∧ TakesBlanks ts before.toList after.toList ∧
      (Token.scan (before ++ "\n\u00a0" ++ after)).map (List.map Token.position) =
        .ok [0, 1, 4, 6, 11, 12, 14, 16] ∧
      Phrase.parse (before ++ "\n\u00a0" ++ after) =
        .error (.syntaxError ⟨.unexpectedToken .parenEnd ")", 14⟩) := by
  intro before after ts
  have he : Emits (.start (before ++ after)) ts ⟨[], 15, []⟩ := by decide +kernel
  have hscan : Token.scan (before ++ after) = .ok ts := tokens_of_emits he rfl
  have hname : ⟨.functionCall, "f", 6⟩ ∈ ts := by decide
  have hbetween : ∀ c ∈ [' '], isBlank c = true := List.all_eq_true.1 (by decide +kernel)
  have hplace : TakesBlanks ts before.toList after.toList :=
    .afterName hname (.inl rfl) hbetween (by decide)
  have hbefore : before.length = 8 := by decide
  have hblanks : "\n\u00a0".length = 2 := by decide
  have hb : ∀ c ∈ "\n\u00a0".toList, isBlank c = true := List.all_eq_true.1 (by decide +kernel)
  obtain ⟨hscan', hparse'⟩ := parse_insert_blanks hscan hplace hb
  rw [hbefore, hblanks] at hscan' hparse'
  refine ⟨hscan, hplace, by rw [hscan']; rfl, ?_⟩
  rw [hparse', Phrase.parse_eq_ofTokens hscan]
  rfl

end MessageCatalog
