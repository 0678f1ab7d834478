import MessageCatalog.Proofs.Assembling
import MessageCatalog.Proofs.Lexemes
import MessageCatalog.Proofs.Scanning

/-!
# Lexemes with more text after them

A lexeme ends where the characters of its class end. So it is the same lexeme when more text stands
at the end, unless all that follows it is of no use to decide where it ends: a name or a number at
the very end of a text may go on. What follows a lexeme is the end of the text it is taken from.
-/
namespace MessageCatalog
open Text

def Lexeme.extend (l : Lexeme) (tail : List Char) : Lexeme := { l with rest := l.rest ++ tail }

namespace Scan

variable {opener : Opener} {cs rest tail : List Char}

/-- Whether names and numbers end here: after blanks there is a character, and it is no point. -/
def EndsWord (rest : List Char) : Prop := ∃ c ds, dropBlanks rest = c :: ds ∧ c ≠ '.'

theorem EndsWord.ne_nil (h : EndsWord rest) : rest ≠ [] := by
  obtain ⟨c, ds, hd, -⟩ := h
  intro hr
  rw [hr] at hd
  contradiction

theorem not_endsWord_point (ds : List Char) : ¬ EndsWord ('.' :: ds) := by
  rintro ⟨c, ds', hd, hc⟩
  rw [dropBlanks_cons (by decide +kernel)] at hd
  cases hd
  exact hc rfl

theorem takeWhile_dropWhile_append {p : Char → Bool} (h : cs.dropWhile p ≠ []) (tail : List Char) :
    (cs ++ tail).takeWhile p = cs.takeWhile p ∧
      (cs ++ tail).dropWhile p = cs.dropWhile p ++ tail := by
  have hsplit : cs ++ tail = cs.takeWhile p ++ (cs.dropWhile p ++ tail) := by
    rw [← List.append_assoc, List.takeWhile_append_dropWhile]
  have hword : ∀ c ∈ cs.takeWhile p, p c = true := List.all_eq_true.1 List.all_takeWhile
  rw [hsplit]
  refine takeWhile_dropWhile_run hword ?_
  cases hd : cs.dropWhile p with
  | nil => exact absurd hd h
  | cons d ds =>
    intro c hc
    cases hc
    have hhead := List.head_dropWhile_not p (l := cs) h
    simpa [hd] using hhead

theorem dropBlanks_append (h : dropBlanks cs ≠ []) (tail : List Char) :
    dropBlanks (cs ++ tail) = dropBlanks cs ++ tail :=
  (takeWhile_dropWhile_append h tail).2

theorem splitQuoted_extend {quote : Char} {s : List Char × List Char}
    (h : splitQuoted quote cs = some s) (tail : List Char) :
    splitQuoted quote (cs ++ tail) = some (s.1, s.2 ++ tail) := by
  fun_induction splitQuoted quote cs generalizing s with
  | case1 => contradiction
  | case2 => contradiction
  | case3 e cs' ih =>
    simp only [Option.bind_eq_some_iff, Option.map_eq_some_iff] at h
    obtain ⟨c, he, t, ht, rfl⟩ := h
    simp [splitQuoted, he, ih ht]
  | case4 cs hb =>
    cases h
    simp [splitQuoted]
  | case5 c cs hb hc ih =>
    obtain ⟨t, ht, rfl⟩ := Option.map_eq_some_iff.1 h
    simp [splitQuoted, hc, ih ht]

theorem splitUnsigned?_extend {s : List Char × List Char} (h : splitUnsigned? cs = some s)
    (hr : EndsWord s.2) (tail : List Char) :
    splitUnsigned? (cs ++ tail) = some (s.1, s.2 ++ tail) := by
  simp only [splitUnsigned?] at h
  split at h
  · contradiction
  · next hne =>
    have hdrop : cs.dropWhile isDecimalDigit ≠ [] := by
      intro hd
      rw [hd] at h
      cases h
      exact hr.ne_nil rfl
    obtain ⟨htake, hrest⟩ := takeWhile_dropWhile_append hdrop tail
    simp only [splitUnsigned?, htake, hrest, hne]
    split at h
    · next r hpoint =>
      split at h
      · cases h
        rw [hpoint] at hr
        exact absurd hr (not_endsWord_point r)
      · next hfraction =>
        cases h
        obtain ⟨htake', hrest'⟩ := takeWhile_dropWhile_append hr.ne_nil tail
        simp [hpoint, htake', hrest', hfraction]
    · next hpoint =>
      cases h
      cases hd : cs.dropWhile isDecimalDigit with
      | nil => exact absurd hd hdrop
      | cons d ds =>
        have hne : d ≠ '.' := fun hc => hpoint ds (by rw [hd, hc])
        simp [hne]

theorem splitNumber?_extend {s : List Char × List Char} (h : splitNumber? cs = some s)
    (hr : EndsWord s.2) (tail : List Char) :
    splitNumber? (cs ++ tail) = some (s.1, s.2 ++ tail) := by
  unfold splitNumber? at h
  split at h
  · next cs =>
    obtain ⟨t, ht, rfl⟩ := Option.map_eq_some_iff.1 h
    simp [splitNumber?, splitUnsigned?_extend ht hr]
  · next hminus =>
    obtain ⟨c, rest, rfl, -⟩ := splitUnsigned?_head h
    have hc : c ≠ '-' := fun hc => hminus rest (by rw [hc])
    have hu := splitUnsigned?_extend h hr tail
    rw [List.cons_append] at hu ⊢
    simpa [splitNumber?, hc] using hu

theorem isDecimalDigit_of_splitNumber?_none {c : Char} (h : splitNumber? (c :: cs) = none)
    (hw : isWord c = true) : isDecimalDigit c = false := by
  have hminus : c ≠ '-' := by
    intro hc
    rw [hc] at hw
    exact absurd hw (by decide +kernel)
  have hs : splitNumber? (c :: cs) = splitUnsigned? (c :: cs) := by simp [splitNumber?, hminus]
  rw [hs] at h
  simp only [splitUnsigned?] at h
  split at h
  · next hempty =>
    cases hd : isDecimalDigit c with
    | false => rfl
    | true => simp [List.takeWhile, hd] at hempty
  · split at h
    · split at h <;> contradiction
    · contradiction

theorem wordLexeme?_extend {l : Lexeme} (h : wordLexeme? cs = some l)
    (hr : l.kind.isFlat = true → EndsWord l.rest) (tail : List Char) :
    wordLexeme? (cs ++ tail) = some (l.extend tail) := by
  simp only [wordLexeme?] at h
  split at h
  · contradiction
  · next hne =>
    split at h
    · next kind hk =>
      cases h
      have hflat : kind.isFlat = true := by rcases keyword_kind hk with rfl | rfl | rfl <;> rfl
      obtain ⟨htake, hdrop⟩ := takeWhile_dropWhile_append (hr hflat).ne_nil tail
      simp [wordLexeme?, htake, hdrop, hne, hk, Lexeme.extend]
    · next hk =>
      have hblanks : dropBlanks (cs.dropWhile isWord) ≠ [] := by
        intro hd
        rw [hd] at h
        cases h
        obtain ⟨c, ds, hc, -⟩ := hr rfl
        rw [hd] at hc
        contradiction
      have hword : cs.dropWhile isWord ≠ [] := by
        intro hd
        rw [hd] at hblanks
        exact hblanks rfl
      obtain ⟨htake, hdrop⟩ := takeWhile_dropWhile_append hword tail
      have hafter := dropBlanks_append hblanks tail
      simp only [wordLexeme?, htake, hdrop, hne, hk, hafter]
      split at h
      · next r heq =>
        cases h
        simp [heq, Lexeme.extend]
      · next r heq =>
        cases h
        simp [heq, Lexeme.extend]
      · next hcall hproperty =>
        cases h
        cases hd : dropBlanks (cs.dropWhile isWord) with
        | nil => exact absurd hd hblanks
        | cons d ds =>
          have hopen : d ≠ '(' := fun hc => hcall ds (by rw [hd, hc])
          have hcolon : d ≠ ':' := fun hc => hproperty ds (by rw [hd, hc])
          simp [hopen, hcolon, Lexeme.extend]

theorem expressionLexeme_extend {l : Lexeme} (h : expressionLexeme? opener cs = some l)
    (hr : l.kind.isFlat = true → EndsWord l.rest) (tail : List Char) :
    expressionLexeme? opener (cs ++ tail) = some (l.extend tail) := by
  cases cs with
  | nil => cases h
  | cons c cs =>
    by_cases hm : c ∈ punctuation
    · simp only [punctuation, List.mem_cons, List.not_mem_nil, or_false] at hm
      rcases hm with rfl | rfl | rfl | rfl | rfl | rfl | rfl | rfl | rfl
      iterate 2
        obtain ⟨s, hs, rfl⟩ := Option.map_eq_some_iff.1 h
        simp [expressionLexeme?, splitQuoted_extend hs, Lexeme.extend]
      iterate 7
        cases h
        rfl
    · rw [expressionLexeme_of_not_mem hm] at h
      cases hs : splitNumber? (c :: cs) with
      | some s =>
        rw [hs] at h
        cases h
        have hn := splitNumber?_extend hs (hr rfl) tail
        rw [List.cons_append] at hn ⊢
        rw [expressionLexeme_of_not_mem hm, hn]
        rfl
      | none =>
        rw [hs] at h
        obtain ⟨d, ds, hcs, hw⟩ := wordLexeme?_head h
        cases hcs
        have hd := isDecimalDigit_of_splitNumber?_none hs hw
        have hword : expressionLexeme? opener ([c] ++ (cs ++ tail)) =
            wordLexeme? ([c] ++ (cs ++ tail)) :=
          expressionLexeme_word (by simp) (by simpa using hw) (by simpa using hd)
        exact hword.trans (wordLexeme?_extend h hr tail)

theorem expressionLexeme_point (cs : List Char) : expressionLexeme? opener ('.' :: cs) = none := by
  have hm : '.' ∉ punctuation := by decide
  have hd : isDecimalDigit '.' = false := by decide +kernel
  have hw : isWord '.' = false := by decide +kernel
  rw [expressionLexeme_of_not_mem hm]
  simp [splitNumber?, splitUnsigned?, wordLexeme?, List.takeWhile, hd, hw]

variable {inTemplate : Bool}

theorem textEnds_extend (h : textEnds inTemplate rest = true) (tail : List Char) :
    textEnds inTemplate (rest ++ tail) = true := by
  simp only [textEnds, Bool.or_eq_true, Bool.and_eq_true, beq_iff_eq] at h ⊢
  rcases h with h | ⟨ht, h⟩
  · left
    unfold atInterpolation at h
    split at h
    · rfl
    · contradiction
  · obtain ⟨ds, rfl⟩ := List.head?_eq_some_iff.1 h
    exact .inr ⟨ht, rfl⟩

theorem EndsText.extend (h : EndsText inTemplate rest) (hne : rest ≠ []) (tail : List Char) :
    EndsText inTemplate (rest ++ tail) := by
  rcases h with h | h
  · exact absurd h hne
  · exact .inr (textEnds_extend h tail)

theorem EndsText.weaken (h : EndsText false rest) (inTemplate : Bool) :
    EndsText inTemplate rest := by
  rcases h with h | h
  · exact .inl h
  · simp only [textEnds, Bool.false_and, Bool.or_false] at h
    exact .inr (by simp [textEnds, h])

theorem splitText_spec (inTemplate : Bool) (cs : List Char) :
    EndsText inTemplate (splitText inTemplate cs).2 ∧
      ¬ ['$', '\x7b'] <:+: (splitText inTemplate cs).1 ∧
      (inTemplate = true → '`' ∉ (splitText inTemplate cs).1) := by
  induction cs with
  | nil => exact ⟨.inl rfl, by simp [splitText], by simp [splitText]⟩
  | cons c cs ih =>
    obtain ⟨hrest, hinterpolation, hbacktick⟩ := ih
    by_cases hends : textEnds inTemplate (c :: cs) = true
    · rw [splitText, if_pos hends]
      exact ⟨.inr hends, by simp, by simp⟩
    · rw [splitText, if_neg hends]
      simp only [textEnds, Bool.or_eq_true, not_or, Bool.not_eq_true] at hends
      refine ⟨hrest, fun hinfix => ?_, fun ht hmem => ?_⟩
      · -- The first two characters would be a dollar sign and a brace, where no text stands.
        rcases List.infix_cons_iff.1 hinfix with hprefix | hinfix
        · have hsplit := splitText_append inTemplate cs
          obtain ⟨rfl, ds, hds⟩ := List.cons_prefix_cons.1 hprefix
          rw [← hds] at hsplit
          rw [← hsplit] at hends
          exact absurd hends.1 (by simp [atInterpolation])
        · exact hinterpolation hinfix
      · rcases List.mem_cons.1 hmem with rfl | hmem
        · simp [ht] at hends
        · exact hbacktick ht hmem

theorem textLexeme_string {l : Lexeme} (h : textLexeme? inTemplate cs = some l)
    (hk : l.kind = .string) :
    cs = l.value ++ l.rest ∧ IsPlain inTemplate l.value ∧ EndsText inTemplate l.rest := by
  have hends : ∃ c ds, cs = c :: ds ∧ textEnds inTemplate (c :: ds) = false := by
    unfold textLexeme? at h
    split at h
    · contradiction
    · cases h
      contradiction
    · next c ds hstart =>
      split at h
      · cases h
        contradiction
      · next htick =>
        refine ⟨c, ds, rfl, ?_⟩
        have hat : atInterpolation (c :: ds) = false := by
          unfold atInterpolation
          split
          · next r heq => exact absurd heq (by simpa using hstart r)
          · rfl
        simpa [textEnds, hat] using htick
  obtain ⟨c, ds, rfl, hends⟩ := hends
  rw [textLexeme_of_not_textEnds hends] at h
  cases h
  have hsplit := splitText_append inTemplate (c :: ds)
  obtain ⟨hrest, hinterpolation, hbacktick⟩ := splitText_spec inTemplate (c :: ds)
  rw [splitText, if_neg (by simp [hends])] at hsplit hrest hinterpolation hbacktick
  exact ⟨hsplit.symm, ⟨by simp, hinterpolation, hbacktick⟩, hrest⟩

theorem textEnds_of_textLexeme {l : Lexeme} (h : textLexeme? inTemplate cs = some l)
    (hk : l.kind = .expressionStart) : textEnds inTemplate cs = true := by
  unfold textLexeme? at h
  split at h
  · contradiction
  · rfl
  · split at h <;> cases h <;> contradiction

theorem textLexeme_extend {inTemplate' : Bool} {l : Lexeme} {tail : List Char}
    (h : textLexeme? inTemplate cs = some l) (hmode : inTemplate = true → inTemplate' = true)
    (htext : l.kind = .string →
      (inTemplate' = true → '`' ∉ l.value) ∧ EndsText inTemplate' (l.rest ++ tail)) :
    textLexeme? inTemplate' (cs ++ tail) = some (l.extend tail) := by
  by_cases hk : l.kind = .string
  · obtain ⟨hbacktick, hends⟩ := htext hk
    obtain ⟨hcs, hplain, -⟩ := textLexeme_string h hk
    have hplain' : IsPlain inTemplate' l.value := ⟨hplain.nonempty, hplain.noInterpolation, hbacktick⟩
    rw [hcs, List.append_assoc, textLexeme_plain hplain' hends, Lexeme.extend, hk]
  · unfold textLexeme? at h
    split at h
    · contradiction
    · cases h
      rfl
    · split at h
      · next hb =>
        simp only [Bool.and_eq_true, beq_iff_eq] at hb
        cases h
        rw [hmode hb.1, hb.2]
        rfl
      · cases h
        exact absurd rfl hk

theorem splitQuoted_suffix {quote : Char} {s : List Char × List Char}
    (h : splitQuoted quote cs = some s) : s.2 <:+ cs := by
  fun_induction splitQuoted quote cs generalizing s with
  | case1 => contradiction
  | case2 => contradiction
  | case3 e cs' ih =>
    simp only [Option.bind_eq_some_iff, Option.map_eq_some_iff] at h
    obtain ⟨c, -, t, ht, rfl⟩ := h
    exact (ih ht).trans ((List.suffix_cons e cs').trans (List.suffix_cons '\\' _))
  | case4 cs =>
    cases h
    exact List.suffix_cons _ _
  | case5 c cs hb hc ih =>
    obtain ⟨t, ht, rfl⟩ := Option.map_eq_some_iff.1 h
    exact (ih ht).trans (List.suffix_cons _ _)

theorem splitUnsigned?_suffix {s : List Char × List Char} (h : splitUnsigned? cs = some s) :
    s.2 <:+ cs := by
  have hrest : cs.dropWhile isDecimalDigit <:+ cs := List.dropWhile_suffix _
  simp only [splitUnsigned?] at h
  split at h
  · contradiction
  · split at h
    · next r hr =>
      rw [hr] at hrest
      split at h
      · cases h
        rwa [hr]
      · cases h
        exact (List.dropWhile_suffix _).trans ((List.suffix_cons '.' r).trans hrest)
    · cases h
      exact hrest

theorem splitNumber?_suffix {s : List Char × List Char} (h : splitNumber? cs = some s) :
    s.2 <:+ cs := by
  unfold splitNumber? at h
  split at h
  · obtain ⟨t, ht, rfl⟩ := Option.map_eq_some_iff.1 h
    exact (splitUnsigned?_suffix ht).trans (List.suffix_cons _ _)
  · exact splitUnsigned?_suffix h

theorem wordLexeme?_suffix {l : Lexeme} (h : wordLexeme? cs = some l) : l.rest <:+ cs := by
  have hrest : cs.dropWhile isWord <:+ cs := List.dropWhile_suffix _
  have hblanks : dropBlanks (cs.dropWhile isWord) <:+ cs := (List.dropWhile_suffix _).trans hrest
  simp only [wordLexeme?] at h
  split at h
  · contradiction
  · split at h
    · cases h
      exact hrest
    · split at h
      · next r hr =>
        rw [hr] at hblanks
        cases h
        exact (List.suffix_cons _ r).trans hblanks
      · next r hr =>
        rw [hr] at hblanks
        cases h
        exact (List.suffix_cons _ r).trans hblanks
      · cases h
        exact hrest

theorem textLexeme_suffix {l : Lexeme} (h : textLexeme? inTemplate cs = some l) :
    l.rest <:+ cs := by
  by_cases hk : l.kind = .string
  · exact ⟨l.value, (textLexeme_string h hk).1.symm⟩
  · unfold textLexeme? at h
    split at h
    · contradiction
    · cases h
      exact ⟨['$', '\x7b'], rfl⟩
    · split at h
      · cases h
        exact List.suffix_cons _ _
      · cases h
        exact absurd rfl hk

theorem expressionLexeme_suffix {l : Lexeme} (h : expressionLexeme? opener cs = some l) :
    l.rest <:+ cs := by
  unfold expressionLexeme? at h
  split at h
  iterate 2
    obtain ⟨s, hs, rfl⟩ := Option.map_eq_some_iff.1 h
    exact (splitQuoted_suffix hs).trans (List.suffix_cons _ _)
  iterate 7
    cases h
    exact List.suffix_cons _ _
  · split at h
    · next s hs =>
      cases h
      exact splitNumber?_suffix hs
    · exact wordLexeme?_suffix h

theorem lexeme_suffix {opened : List Opener} {l : Lexeme} (h : lexeme? opened cs = some l) :
    l.rest <:+ cs := by
  unfold lexeme? at h
  split at h
  · exact textLexeme_suffix h
  · exact textLexeme_suffix h
  · exact expressionLexeme_suffix h

theorem skip_suffix (opened : List Opener) (cs : List Char) : skip opened cs <:+ cs := by
  unfold skip
  split
  · exact List.dropWhile_suffix _
  · exact List.suffix_refl cs

theorem Emits.rest_suffix {σ τ : State} {ts : List Token} (h : Emits σ ts τ) :
    τ.rest <:+ σ.rest := by
  induction h with
  | stay σ => exact List.suffix_refl σ.rest
  | next hn _ ih =>
    obtain ⟨l, hl, -, rfl⟩ := State.exists_lexeme_of_next hn
    exact ih.trans ((lexeme_suffix hl).trans (skip_suffix _ _))

end Scan

end MessageCatalog
