import MessageCatalog.Proofs.TokenSpelling

/-!
# Lexemes with other text after them

Where a lexeme ends is decided by its own characters and by little of the text after it: a word or a
number by the character that touches it, a name also by the first character after blanks, plain text
by what ends it. So a lexeme is the same with any other text after it that is alike in this.
-/
namespace MessageCatalog
open Text

def Lexeme.followedBy (l : Lexeme) (rest : List Char) : Lexeme := { l with rest := rest }

namespace Scan

variable {opener : Opener} {cs rest rest' blanks : List Char}

/-- Whether a text ends what is before it as another text does: it begins with a blank or with the
same character, and after blanks with the same character. -/
structure EndsAlike (rest rest' : List Char) : Prop where
  touching : ∀ c ∈ rest'.head?, isBlank c = true ∨ c ∈ rest.head?
  next : (dropBlanks rest').head? = (dropBlanks rest).head?

theorem EndsAlike.head (h : EndsAlike rest rest') {p : Char → Prop}
    (hblank : ∀ c, isBlank c = true → p c) (hp : ∀ c ∈ rest.head?, p c) :
    ∀ c ∈ rest'.head?, p c := by
  intro c hc
  rcases h.touching c hc with hb | hr
  · exact hblank c hb
  · exact hp c hr

theorem dropBlanks_append_of_blank (hb : ∀ c ∈ blanks, isBlank c = true) (cs : List Char) :
    dropBlanks (blanks ++ cs) = dropBlanks cs :=
  List.dropWhile_append_of_pos hb

theorem endsAlike_blanks (hb : ∀ c ∈ blanks, isBlank c = true) (front after : List Char) :
    EndsAlike (front ++ after) (front ++ (blanks ++ after)) := by
  constructor
  · intro c hc
    cases front with
    | cons d front => exact .inr hc
    | nil =>
      cases blanks with
      | nil => exact .inr hc
      | cons b blanks =>
        cases hc
        exact .inl (hb c List.mem_cons_self)
  · induction front with
    | nil => exact congrArg List.head? (dropBlanks_append_of_blank hb after)
    | cons d front ih =>
      cases hd : isBlank d with
      | true => simpa [dropBlanks, List.dropWhile, hd] using ih
      | false => rw [List.cons_append, List.cons_append, dropBlanks_cons hd, dropBlanks_cons hd]; rfl

theorem not_isWord_of_isBlank {c : Char} (h : isBlank c = true) : isWord c = false := by
  cases hw : isWord c with
  | false => rfl
  | true =>
    rw [isBlank_of_isWord hw] at h
    contradiction

theorem not_isDecimalDigit_of_isBlank {c : Char} (h : isBlank c = true) :
    isDecimalDigit c = false := by
  cases hd : isDecimalDigit c with
  | false => rfl
  | true =>
    rw [isBlank_of_isDecimalDigit hd] at h
    contradiction

theorem ne_point_of_isBlank {c : Char} (h : isBlank c = true) : c ≠ '.' := by
  rintro rfl
  exact absurd h (by decide +kernel)

def StopsNumber (rest : List Char) : Prop := ∀ c ∈ rest.head?, isDecimalDigit c = false ∧ c ≠ '.'

theorem head_dropWhile_isDecimalDigit (cs : List Char) :
    ∀ c ∈ (cs.dropWhile isDecimalDigit).head?, isDecimalDigit c = false := by
  intro c hc
  have hhead := List.head?_dropWhile_not isDecimalDigit cs
  rw [Option.mem_def.1 hc] at hhead
  exact hhead

theorem splitUnsigned?_head_rest {s : List Char × List Char} (h : splitUnsigned? cs = some s) :
    ∀ c ∈ s.2.head?, isDecimalDigit c = false := by
  simp only [splitUnsigned?] at h
  split at h
  · contradiction
  · split at h
    · split at h
      · cases h
        exact head_dropWhile_isDecimalDigit cs
      · cases h
        exact head_dropWhile_isDecimalDigit _
    · cases h
      exact head_dropWhile_isDecimalDigit cs

theorem splitNumber?_head_rest {s : List Char × List Char} (h : splitNumber? cs = some s) :
    ∀ c ∈ s.2.head?, isDecimalDigit c = false := by
  unfold splitNumber? at h
  split at h
  · obtain ⟨t, ht, rfl⟩ := Option.map_eq_some_iff.1 h
    have hrest := splitUnsigned?_head_rest ht
    exact hrest
  · exact splitUnsigned?_head_rest h

theorem splitUnsigned?_of_isUnsigned (h : IsUnsigned cs) (hr : StopsNumber rest) :
    splitUnsigned? (cs ++ rest) = some (cs, rest) := by
  have hstop : ∀ c ∈ rest.head?, isDecimalDigit c = false := fun c hc => (hr c hc).1
  cases h with
  | whole hds =>
    obtain ⟨htake, hdrop⟩ := takeWhile_dropWhile_run hds.digit hstop
    have hne : cs.isEmpty = false := by simpa using hds.nonempty
    simp only [splitUnsigned?, htake, hdrop, hne, Bool.false_eq_true, if_false]
    split
    · exact absurd rfl (hr '.' rfl).2
    · rfl
  | @point ds es hds hes =>
    have hpoint : ∀ c ∈ ('.' :: (es ++ rest)).head?, isDecimalDigit c = false := by
      intro c hc
      cases hc
      decide +kernel
    obtain ⟨htake, hdrop⟩ := takeWhile_dropWhile_run hds.digit hpoint
    obtain ⟨htake', hdrop'⟩ := takeWhile_dropWhile_run hes.digit hstop
    have hne : ds.isEmpty = false := by simpa using hds.nonempty
    have hne' : es.isEmpty = false := by simpa using hes.nonempty
    rw [List.append_assoc, List.cons_append]
    simp only [splitUnsigned?, htake, hdrop, htake', hdrop', hne, hne', Bool.false_eq_true, if_false]

theorem IsUnsigned.nonempty (h : IsUnsigned cs) : cs ≠ [] := by
  cases h with
  | whole hds => exact hds.nonempty
  | point => simp

theorem IsUnsigned.ne_minus (h : IsUnsigned cs) : ∀ c ∈ cs.head?, c ≠ '-' := by
  have hdigits {ds : List Char} (hds : IsDigits ds) : ∀ c ∈ ds.head?, c ≠ '-' := by
    rintro c hc rfl
    have hd := hds.digit _ (List.mem_of_mem_head? hc)
    exact absurd hd (by decide +kernel)
  cases h with
  | whole hds => exact hdigits hds
  | @point ds es hds _ =>
    have hminus := hdigits hds
    obtain ⟨d, ds, rfl⟩ := List.exists_cons_of_ne_nil hds.nonempty
    exact hminus

theorem splitNumber?_of_isNumeral (h : IsNumeral cs) (hr : StopsNumber rest) :
    splitNumber? (cs ++ rest) = some (cs, rest) := by
  cases h with
  | unsigned hu =>
    have hs := splitUnsigned?_of_isUnsigned hu hr
    obtain ⟨d, ds, rfl⟩ := List.exists_cons_of_ne_nil hu.nonempty
    have hminus : d ≠ '-' := hu.ne_minus d rfl
    rw [List.cons_append] at hs ⊢
    simpa [splitNumber?, hminus] using hs
  | negative hu => simp [splitNumber?, splitUnsigned?_of_isUnsigned hu hr]

def nameEnd? : TokenKind → Option Char
  | .functionCall => some '('
  | .propertyName => some ':'
  | _ => none

theorem wordLexeme?_named {word : List Char} {kind : TokenKind} {d : Char} (hne : word ≠ [])
    (hw : ∀ c ∈ word, isWord c = true) (hk : keyword? word = none)
    (hb : ∀ c ∈ blanks, isBlank c = true) (hd : nameEnd? kind = some d) (rest : List Char) :
    wordLexeme? (word ++ (blanks ++ d :: rest)) = some ⟨kind, word, rest⟩ := by
  have hclass : isWord d = false ∧ isBlank d = false := by
    unfold nameEnd? at hd
    split at hd <;> cases hd <;> decide +kernel
  have hstop : ∀ c ∈ (blanks ++ d :: rest).head?, isWord c = false := by
    cases blanks with
    | nil =>
      intro c hc
      cases hc
      exact hclass.1
    | cons b blanks =>
      intro c hc
      cases hc
      exact not_isWord_of_isBlank (hb b List.mem_cons_self)
  rw [wordLexeme?_append hne hw hstop, hk, dropBlanks_append_of_blank hb, dropBlanks_cons hclass.2]
  unfold nameEnd? at hd
  split at hd <;> cases hd <;> rfl

theorem wordLexeme?_followed {l : Lexeme} (h : wordLexeme? cs = some l)
    (hr : EndsAlike l.rest rest') :
    ∃ span, cs = span ++ l.rest ∧ wordLexeme? (span ++ rest') = some (l.followedBy rest') := by
  have hcs : cs.takeWhile isWord ++ cs.dropWhile isWord = cs := List.takeWhile_append_dropWhile
  have hw : ∀ c ∈ cs.takeWhile isWord, isWord c = true := List.all_eq_true.1 List.all_takeWhile
  have hstop := stopsWord_dropWhile cs
  have hsplit : (cs.dropWhile isWord).takeWhile isBlank ++ dropBlanks (cs.dropWhile isWord) =
      cs.dropWhile isWord := List.takeWhile_append_dropWhile
  have hblank : ∀ c ∈ (cs.dropWhile isWord).takeWhile isBlank, isBlank c = true :=
    List.all_eq_true.1 List.all_takeWhile
  simp only [wordLexeme?] at h
  split at h
  · contradiction
  · next hempty =>
    have hne : cs.takeWhile isWord ≠ [] := by simpa using hempty
    -- A call or a property has the character after its name among its own.
    have hnamed {kind : TokenKind} {d : Char} {r : List Char} (hd : nameEnd? kind = some d)
        (hk : keyword? (cs.takeWhile isWord) = none)
        (hnext : dropBlanks (cs.dropWhile isWord) = d :: r) :
        ∃ span, cs = span ++ r ∧
          wordLexeme? (span ++ rest') = some ⟨kind, cs.takeWhile isWord, rest'⟩ := by
      rw [hnext] at hsplit
      refine ⟨cs.takeWhile isWord ++ ((cs.dropWhile isWord).takeWhile isBlank ++ [d]), ?_, ?_⟩
      · rw [List.append_assoc, List.append_assoc, List.singleton_append, hsplit, hcs]
      · rw [List.append_assoc, List.append_assoc, List.singleton_append]
        exact wordLexeme?_named hne hw hk hblank hd rest'
    split at h
    · next kind hk =>
      cases h
      refine ⟨_, hcs.symm, ?_⟩
      rw [wordLexeme?_append hne hw (hr.head (fun _ => not_isWord_of_isBlank) hstop), hk]
      rfl
    · next hk =>
      split at h
      · next r hnext =>
        cases h
        exact hnamed rfl hk hnext
      · next r hnext =>
        cases h
        exact hnamed rfl hk hnext
      · next hcall hproperty =>
        cases h
        refine ⟨_, hcs.symm, ?_⟩
        have hword := wordLexeme?_append hne hw (hr.head (fun _ => not_isWord_of_isBlank) hstop)
        rw [hk] at hword
        refine hword.trans ?_
        have hnext := hr.next
        dsimp only at hnext ⊢
        split
        · next r heq =>
          rw [heq] at hnext
          obtain ⟨ds, hds⟩ := List.head?_eq_some_iff.1 hnext.symm
          exact absurd hds (hcall ds)
        · next r heq =>
          rw [heq] at hnext
          obtain ⟨ds, hds⟩ := List.head?_eq_some_iff.1 hnext.symm
          exact absurd hds (hproperty ds)
        · rfl

theorem expressionLexeme_followed {l : Lexeme} (h : expressionLexeme? opener cs = some l)
    (hr : EndsAlike l.rest rest') (hpoint : l.kind = .number → '.' ∉ l.rest.head?) :
    ∃ span, cs = span ++ l.rest ∧
      expressionLexeme? opener (span ++ rest') = some (l.followedBy rest') := by
  have hquoted {quote : Char} {ds : List Char} (hq : IsQuote quote)
      (h : (splitQuoted quote ds).map (fun s => Lexeme.mk .string s.1 s.2) = some l) :
      ∃ span, quote :: ds = span ++ l.rest ∧
        expressionLexeme? opener (span ++ rest') = some (l.followedBy rest') := by
    obtain ⟨s, hs, rfl⟩ := Option.map_eq_some_iff.1 h
    obtain ⟨raw, rfl, hraw, hdecode⟩ := splitQuoted_spec hs
    have hsplit := splitQuoted_of_isQuoted hq hraw hdecode rest'
    refine ⟨quote :: (raw ++ [quote]), by simp, ?_⟩
    rw [List.cons_append, List.append_assoc, List.singleton_append]
    rcases hq with rfl | rfl <;> simp [expressionLexeme?, hsplit, Lexeme.followedBy]
  unfold expressionLexeme? at h
  split at h
  · exact hquoted (.inl rfl) h
  · exact hquoted (.inr rfl) h
  iterate 7
    cases h
    exact ⟨[_], rfl, rfl⟩
  · split at h
    · next s hs =>
      cases h
      obtain ⟨hcs, hnumeral⟩ := splitNumber?_spec hs
      have hdigit := splitNumber?_head_rest hs
      have hstop : StopsNumber rest' :=
        hr.head (fun c hb => ⟨not_isDecimalDigit_of_isBlank hb, ne_point_of_isBlank hb⟩)
          fun c hc => ⟨hdigit c hc, fun hp => hpoint rfl (hp ▸ hc)⟩
      have hnumber := splitNumber?_of_isNumeral hnumeral hstop
      refine ⟨s.1, hcs, ?_⟩
      obtain ⟨c, ds, hcs', hc⟩ := splitNumber?_head hnumber
      have hm : c ∉ punctuation := by
        rcases hc with rfl | hc
        · decide
        · exact not_mem_punctuation (by decide +kernel) hc
      rw [hcs'] at hnumber ⊢
      rw [expressionLexeme_of_not_mem hm, hnumber]
      rfl
    · next hs =>
      obtain ⟨span, hspan, hword⟩ := wordLexeme?_followed h hr
      obtain ⟨c, ds, rfl, hc⟩ := wordLexeme?_head h
      have hd := isDecimalDigit_of_splitNumber?_none hs hc
      have hlt := length_wordLexeme_lt h
      cases span with
      | nil =>
        rw [hspan] at hlt
        simp at hlt
      | cons d span =>
        cases hspan
        have hexpression : expressionLexeme? opener ([c] ++ (span ++ rest')) =
            wordLexeme? ([c] ++ (span ++ rest')) :=
          expressionLexeme_word (by simp) (by simpa using hc) (by simpa using hd)
        exact ⟨c :: span, rfl, hexpression.trans hword⟩

theorem textLexeme_followed {inTemplate : Bool} {l : Lexeme}
    (h : textLexeme? inTemplate cs = some l) (hr : l.kind = .string → EndsText inTemplate rest') :
    ∃ span, cs = span ++ l.rest ∧
      textLexeme? inTemplate (span ++ rest') = some (l.followedBy rest') := by
  by_cases hk : l.kind = .string
  · obtain ⟨hcs, hplain, -⟩ := textLexeme_string h hk
    refine ⟨_, hcs, ?_⟩
    rw [textLexeme_plain hplain (hr hk), ← hk]
    rfl
  · unfold textLexeme? at h
    split at h
    · contradiction
    · cases h
      exact ⟨['$', '\x7b'], rfl, rfl⟩
    · split at h
      · next htick =>
        simp only [Bool.and_eq_true, beq_iff_eq] at htick
        cases h
        rw [htick.1, htick.2]
        exact ⟨['`'], rfl, rfl⟩
      · cases h
        exact absurd rfl hk

theorem kind_eq_string_iff {inTemplate : Bool} {l : Lexeme}
    (h : textLexeme? inTemplate cs = some l) : l.kind = .string ↔ textEnds inTemplate cs = false := by
  constructor
  · intro hk
    cases hends : textEnds inTemplate cs with
    | false => rfl
    | true =>
      unfold textLexeme? at h
      split at h
      · contradiction
      · cases h
        contradiction
      · next hstart =>
        split at h
        · cases h
          contradiction
        · next htick =>
          simp only [textEnds, Bool.or_eq_true] at hends
          rcases hends with hat | htick'
          · unfold atInterpolation at hat
            split at hat
            · next heq =>
              cases heq
              exact (hstart _ rfl rfl).elim
            · contradiction
          · exact absurd (by simpa using htick') htick
  · intro hends
    cases cs with
    | nil => contradiction
    | cons c cs =>
      rw [textLexeme_of_not_textEnds hends] at h
      cases h
      rfl

end Scan

end MessageCatalog
