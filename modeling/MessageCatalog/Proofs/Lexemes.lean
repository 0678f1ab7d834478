import MessageCatalog.Proofs.CharacterClasses
import MessageCatalog.Proofs.Numerals
import MessageCatalog.Token.Scan

/-!
# Lexemes of written text

Names, keywords, integers, quoted strings and plain text, as they are written, are taken off the
front of a text as they are, if what follows them cannot belong to them.
-/
namespace MessageCatalog
open Text

namespace Scan

def punctuation : List Char := ['"', '\'', '[', ']', '\x7b', '\x7d', ')', '`', ',']

def delimiters : List Char := [',', ')', ']', '\x7d']

def Delimited (cs : List Char) : Prop := ∃ c rest, cs = c :: rest ∧ c ∈ delimiters

variable {opener : Opener} {c : Char} {cs rest : List Char}

theorem eq_false_of_any {p : Char → Bool} (h : cs.any p = false) (hc : c ∈ cs) : p c = false := by
  simpa using List.any_eq_false.1 h c hc

theorem not_mem_punctuation {p : Char → Bool} (h : punctuation.any p = false) (hc : p c = true) :
    c ∉ punctuation := by
  intro hm
  rw [eq_false_of_any h hm] at hc
  contradiction

theorem expressionLexeme_of_not_mem (h : c ∉ punctuation) :
    expressionLexeme? opener (c :: cs) = match splitNumber? (c :: cs) with
      | some s => some ⟨.number, s.1, s.2⟩
      | none => wordLexeme? (c :: cs) := by
  unfold expressionLexeme?
  split
  case h_10 => rfl
  all_goals
    next heq =>
    cases heq
    exact absurd (by decide) h

theorem takeWhile_dropWhile_run {p : Char → Bool} (hcs : ∀ c ∈ cs, p c = true)
    (hrest : ∀ c ∈ rest.head?, p c = false) :
    (cs ++ rest).takeWhile p = cs ∧ (cs ++ rest).dropWhile p = rest := by
  rw [List.takeWhile_append_of_pos hcs, List.dropWhile_append_of_pos hcs]
  cases rest with
  | nil => simp
  | cons c rest => simp [hrest c rfl]

theorem Delimited.head (h : Delimited rest) {p : Char → Bool} (hp : delimiters.any p = false) :
    ∀ c ∈ rest.head?, p c = false := by
  obtain ⟨d, ds, rfl, hd⟩ := h
  intro c hc
  cases hc
  exact eq_false_of_any hp hd

theorem Delimited.not_isWord (h : Delimited rest) : ∀ c ∈ rest.head?, isWord c = false :=
  h.head (by decide +kernel)

theorem head_of_any {p : Char → Bool} (h : cs.head?.any p = false) :
    ∀ c ∈ cs.head?, p c = false := by
  intro c hc
  rw [Option.mem_def.1 hc] at h
  exact h

theorem any_of_head {p : Char → Bool} (h : ∀ c ∈ cs.head?, p c = false) :
    cs.head?.any p = false := by
  cases cs with
  | nil => rfl
  | cons c cs => exact h c rfl

theorem takeWhile_nonempty {p : Char → Bool} (h : (cs.takeWhile p).isEmpty = false) :
    ∃ c rest, cs = c :: rest ∧ p c = true := by
  cases cs with
  | nil => contradiction
  | cons c rest =>
    refine ⟨c, rest, rfl, ?_⟩
    cases hc : p c with
    | true => rfl
    | false => simp [List.takeWhile, hc] at h

theorem splitUnsigned?_head {s : List Char × List Char} (h : splitUnsigned? cs = some s) :
    ∃ c rest, cs = c :: rest ∧ isDecimalDigit c = true := by
  simp only [splitUnsigned?] at h
  split at h
  · contradiction
  · next hne => exact takeWhile_nonempty (Bool.not_eq_true _ ▸ hne)

theorem splitNumber?_head {s : List Char × List Char} (h : splitNumber? cs = some s) :
    ∃ c rest, cs = c :: rest ∧ (c = '-' ∨ isDecimalDigit c = true) := by
  unfold splitNumber? at h
  split at h
  · exact ⟨_, _, rfl, .inl rfl⟩
  · obtain ⟨c, rest, hcs, hd⟩ := splitUnsigned?_head h
    exact ⟨c, rest, hcs, .inr hd⟩

theorem wordLexeme?_head {l : Lexeme} (h : wordLexeme? cs = some l) :
    ∃ c rest, cs = c :: rest ∧ isWord c = true := by
  simp only [wordLexeme?] at h
  split at h
  · contradiction
  · next hne => exact takeWhile_nonempty (Bool.not_eq_true _ ▸ hne)

theorem dropBlanks_of_expressionLexeme {l : Lexeme} (h : expressionLexeme? opener cs = some l) :
    dropBlanks cs = cs := by
  cases cs with
  | nil => rfl
  | cons c cs =>
    refine dropBlanks_cons ?_
    by_cases hm : c ∈ punctuation
    · have hp : punctuation.any isBlank = false := by decide +kernel
      exact eq_false_of_any hp hm
    · rw [expressionLexeme_of_not_mem hm] at h
      split at h
      · next hs =>
        obtain ⟨d, ds, hcs, hd⟩ := splitNumber?_head hs
        cases hcs
        rcases hd with rfl | hd
        · decide +kernel
        · exact isBlank_of_isDecimalDigit hd
      · obtain ⟨d, ds, hcs, hd⟩ := wordLexeme?_head h
        cases hcs
        exact isBlank_of_isWord hd

def escapedChar (quote c : Char) : List Char :=
  if c = quote ∨ c = '\\' then ['\\', c]
  else if c = '\n' then ['\\', 'n']
  else if c = '\r' then ['\\', 'r']
  else [c]

def escaped (quote : Char) (cs : List Char) : List Char := cs.flatMap (escapedChar quote)

def IsQuote (quote : Char) : Prop := quote = '"' ∨ quote = '\''

theorem splitQuoted_escapedChar {quote : Char} (hq : IsQuote quote) (c : Char) (cs : List Char) :
    splitQuoted quote (escapedChar quote c ++ cs) =
      (splitQuoted quote cs).map fun s => (c :: s.1, s.2) := by
  unfold escapedChar
  split
  · next hc =>
    have he : escape? c = some c := by
      rcases hc with rfl | rfl
      · rcases hq with rfl | rfl <;> rfl
      · rfl
    simp [splitQuoted, he]
  · next hc =>
    split
    · next hn => simp [splitQuoted, escape?, hn]
    · split
      · next hr => simp [splitQuoted, escape?, hr]
      · have hne : c ≠ quote := fun h => hc (.inl h)
        have hb : c ≠ '\\' := fun h => hc (.inr h)
        simp [splitQuoted, hne]

theorem splitQuoted_escaped {quote : Char} (hq : IsQuote quote) (cs rest : List Char) :
    splitQuoted quote (escaped quote cs ++ quote :: rest) = some (cs, rest) := by
  induction cs with
  | nil => rcases hq with rfl | rfl <;> simp [escaped, splitQuoted]
  | cons c cs ih =>
    have hc : escaped quote (c :: cs) = escapedChar quote c ++ escaped quote cs := by
      simp [escaped]
    rw [hc, List.append_assoc, splitQuoted_escapedChar hq, ih]
    rfl

theorem expressionLexeme_quoted {quote : Char} (hq : IsQuote quote) :
    expressionLexeme? opener (quote :: (escaped quote cs ++ quote :: rest)) =
      some ⟨.string, cs, rest⟩ := by
  have h := splitQuoted_escaped hq cs rest
  rcases hq with rfl | rfl <;> simp [expressionLexeme?, h]

theorem splitUnsigned?_natChars {n : Nat} (hr : Delimited rest) :
    splitUnsigned? (Number.natChars n ++ rest) = some (Number.natChars n, rest) := by
  have hd : ∀ c ∈ Number.natChars n, isDecimalDigit c = true := fun c hc =>
    isDecimalDigit_of_isDigit (Number.isDigit_of_mem_natChars hc)
  obtain ⟨htake, hdrop⟩ := takeWhile_dropWhile_run hd (hr.head (by decide +kernel))
  have hne : (Number.natChars n).isEmpty = false := by
    obtain ⟨c, cs, hn, -⟩ := Number.exists_natChars_eq_cons n
    rw [hn]
    rfl
  obtain ⟨d, ds, rfl, hd⟩ := hr
  have hpoint : d ≠ '.' := by
    intro h
    rw [h] at hd
    exact absurd hd (by simp [delimiters])
  simp only [splitUnsigned?, htake, hdrop, hne, Bool.false_eq_true, if_false]
  split
  · next heq =>
    cases heq
    contradiction
  · rfl

theorem splitNumber?_intChars {n : Int} (hr : Delimited rest) :
    splitNumber? (Number.intChars n ++ rest) = some (Number.intChars n, rest) := by
  have h := splitUnsigned?_natChars (n := n.natAbs) hr
  obtain ⟨c, cs, hn, hd⟩ := Number.exists_natChars_eq_cons n.natAbs
  by_cases hneg : n < 0
  · simp [Number.intChars, hneg, splitNumber?, h]
  · have hc : c ≠ '-' := by
      intro hc
      rw [hc] at hd
      contradiction
    simp only [Number.intChars, hneg, if_false, hn, List.cons_append] at h ⊢
    unfold splitNumber?
    split
    · next heq =>
      cases heq
      contradiction
    · exact h

theorem expressionLexeme_integer {n : Int} (hr : Delimited rest) :
    expressionLexeme? opener (Number.intChars n ++ rest) =
      some ⟨.number, Number.intChars n, rest⟩ := by
  have h := splitNumber?_intChars (n := n) hr
  cases hn : Number.intChars n with
  | nil =>
    rw [Number.intChars_eq] at hn
    exact absurd (List.append_eq_nil_iff.1 hn).2 Nat.toDigits_ne_nil
  | cons c cs =>
    have hc : c ∉ punctuation := by
      have hb := Number.toNat_of_mem_intChars (n := n) (c := c) (by simp [hn])
      have hp : punctuation.any (fun d => 45 ≤ d.toNat && d.toNat ≤ 57) = false := by
        decide +kernel
      exact not_mem_punctuation hp (by simpa using hb)
    rw [hn, List.cons_append] at h
    rw [List.cons_append, expressionLexeme_of_not_mem hc, h]

def keywords : List String := ["true", "false", "null", "undefined"]

theorem keyword?_eq_none {name : String} (h : name ∉ keywords) : keyword? name.toList = none := by
  have hne : ∀ k ∈ keywords, name.toList ≠ k.toList := by
    intro k hk heq
    exact h (String.toList_injective heq ▸ hk)
  have htrue := hne "true" (by simp [keywords])
  have hfalse := hne "false" (by simp [keywords])
  have hnull := hne "null" (by simp [keywords])
  have hundefined := hne "undefined" (by simp [keywords])
  rw [keyword?, if_neg (not_or.2 ⟨htrue, hfalse⟩), if_neg hnull, if_neg hundefined]

end Scan

/-- The names that can be written down: words that do not begin with a decimal digit and are not
read as literals. -/
structure IsName (name : String) : Prop where
  nonempty : name.toList ≠ []
  word : ∀ c ∈ name.toList, isWord c = true
  start : ∀ c ∈ name.toList.head?, isDecimalDigit c = false
  notKeyword : name ∉ Scan.keywords

instance {name : String} : Decidable (IsName name) :=
  decidable_of_iff (name.toList ≠ [] ∧ name.toList.all isWord = true ∧
      name.toList.head?.any isDecimalDigit = false ∧ name ∉ Scan.keywords)
    ⟨fun ⟨h₁, h₂, h₃, h₄⟩ => ⟨h₁, List.all_eq_true.1 h₂, Scan.head_of_any h₃, h₄⟩,
      fun ⟨h₁, h₂, h₃, h₄⟩ => ⟨h₁, List.all_eq_true.2 h₂, Scan.any_of_head h₃, h₄⟩⟩

namespace Scan

variable {opener : Opener} {word rest : List Char}

theorem expressionLexeme_word (hne : word ≠ []) (hw : ∀ c ∈ word, isWord c = true)
    (hd : ∀ c ∈ word.head?, isDecimalDigit c = false) :
    expressionLexeme? opener (word ++ rest) = wordLexeme? (word ++ rest) := by
  cases word with
  | nil => contradiction
  | cons c cs =>
    have hcw : isWord c = true := hw c List.mem_cons_self
    have hcd : isDecimalDigit c = false := hd c rfl
    have hp : c ∉ punctuation := not_mem_punctuation (by decide +kernel) hcw
    have hminus : c ≠ '-' := by
      intro h
      rw [h] at hcw
      exact absurd hcw (by decide +kernel)
    have hn : splitNumber? (c :: (cs ++ rest)) = none := by
      unfold splitNumber?
      split
      · next heq =>
        cases heq
        exact absurd rfl hminus
      · simp [splitUnsigned?, List.takeWhile, hcd]
    rw [List.cons_append, expressionLexeme_of_not_mem hp, hn]

theorem wordLexeme?_append (hne : word ≠ []) (hw : ∀ c ∈ word, isWord c = true)
    (hr : ∀ c ∈ rest.head?, isWord c = false) :
    wordLexeme? (word ++ rest) = match keyword? word with
      | some kind => some ⟨kind, word, rest⟩
      | none => match dropBlanks rest with
        | '(' :: r => some ⟨.functionCall, word, r⟩
        | ':' :: r => some ⟨.propertyName, word, r⟩
        | _ => some ⟨.identifier, word, rest⟩ := by
  obtain ⟨htake, hdrop⟩ := takeWhile_dropWhile_run hw hr
  have he : word.isEmpty = false := by simpa using hne
  unfold wordLexeme?
  rw [htake, hdrop]
  exact if_neg (by simp [he])

theorem expressionLexeme_keyword {name : String} {kind : TokenKind}
    (hk : keyword? name.toList = some kind) (hr : Delimited rest) :
    expressionLexeme? opener (name.toList ++ rest) = some ⟨kind, name.toList, rest⟩ := by
  have hm : name ∈ keywords := by
    by_cases h : name ∈ keywords
    · exact h
    · rw [keyword?_eq_none h] at hk
      contradiction
  have hall : ∀ k ∈ keywords, k.toList ≠ [] ∧ k.toList.all isWord = true ∧
      k.toList.head?.any isDecimalDigit = false := by decide +kernel
  obtain ⟨hne, hw, hd⟩ := hall name hm
  have hw := List.all_eq_true.1 hw
  have hd := head_of_any hd
  rw [expressionLexeme_word hne hw hd, wordLexeme?_append hne hw hr.not_isWord, hk]

section Name

variable {name : String} (hn : IsName name)
include hn

theorem expressionLexeme_name (hr : ∀ c ∈ rest.head?, isWord c = false) :
    expressionLexeme? opener (name.toList ++ rest) = match dropBlanks rest with
      | '(' :: r => some ⟨.functionCall, name.toList, r⟩
      | ':' :: r => some ⟨.propertyName, name.toList, r⟩
      | _ => some ⟨.identifier, name.toList, rest⟩ := by
  rw [expressionLexeme_word hn.nonempty hn.word hn.start, wordLexeme?_append hn.nonempty hn.word hr,
    keyword?_eq_none hn.notKeyword]

theorem expressionLexeme_identifier (hr : Delimited rest) :
    expressionLexeme? opener (name.toList ++ rest) = some ⟨.identifier, name.toList, rest⟩ := by
  rw [expressionLexeme_name hn hr.not_isWord]
  obtain ⟨d, ds, rfl, hd⟩ := hr
  have hblank : delimiters.any isBlank = false := by decide +kernel
  rw [dropBlanks_cons (eq_false_of_any hblank hd)]
  split
  · next heq =>
    cases heq
    exact absurd hd (by simp [delimiters])
  · next heq =>
    cases heq
    exact absurd hd (by simp [delimiters])
  · rfl

theorem expressionLexeme_call :
    expressionLexeme? opener (name.toList ++ '(' :: rest) =
      some ⟨.functionCall, name.toList, rest⟩ := by
  have hr : ∀ c ∈ ('(' :: rest).head?, isWord c = false := by
    intro c hc
    cases hc
    decide +kernel
  rw [expressionLexeme_name hn hr, dropBlanks_cons (by decide +kernel)]
  rfl

theorem expressionLexeme_property :
    expressionLexeme? opener (name.toList ++ ':' :: rest) =
      some ⟨.propertyName, name.toList, rest⟩ := by
  have hr : ∀ c ∈ (':' :: rest).head?, isWord c = false := by
    intro c hc
    cases hc
    decide +kernel
  rw [expressionLexeme_name hn hr, dropBlanks_cons (by decide +kernel)]
  rfl

end Name

/-- Text that may stand by itself outside of expressions: nothing in it ends plain text. -/
structure IsPlain (inTemplate : Bool) (cs : List Char) : Prop where
  nonempty : cs ≠ []
  noInterpolation : ¬ ['$', '\x7b'] <:+: cs
  noBacktick : inTemplate = true → '`' ∉ cs

def EndsText (inTemplate : Bool) (rest : List Char) : Prop :=
  rest = [] ∨ textEnds inTemplate rest = true

variable {inTemplate : Bool} {cs : List Char}

theorem EndsText.head_ne_brace (hr : EndsText inTemplate rest) :
    rest.head? ≠ some '\x7b' := by
  cases rest with
  | nil => simp
  | cons d ds =>
    intro hd
    cases hd
    rcases hr with hr | hr
    · contradiction
    · simp [textEnds, atInterpolation] at hr

theorem textEnds_append {c : Char} (hi : ¬ ['$', '\x7b'] <:+: c :: cs)
    (hb : inTemplate = true → '`' ∉ c :: cs) (hr : EndsText inTemplate rest) :
    textEnds inTemplate (c :: (cs ++ rest)) = false := by
  have hbrace : atInterpolation (c :: (cs ++ rest)) = false := by
    unfold atInterpolation
    split
    · next ds heq =>
      cases cs with
      | nil =>
        simp only [List.nil_append, List.cons.injEq] at heq
        exact absurd (by rw [heq.2]; rfl) hr.head_ne_brace
      | cons d cs =>
        simp only [List.cons_append, List.cons.injEq] at heq
        obtain ⟨rfl, rfl, -⟩ := heq
        exact absurd ⟨[], cs, rfl⟩ hi
    · rfl
  have htick : inTemplate = true → c ≠ '`' := by
    intro ht hc
    exact hb ht (hc ▸ List.mem_cons_self)
  cases inTemplate with
  | false => simp [textEnds, hbrace]
  | true => simp [textEnds, hbrace, htick rfl]

theorem splitText_plain (hi : ¬ ['$', '\x7b'] <:+: cs) (hb : inTemplate = true → '`' ∉ cs)
    (hr : EndsText inTemplate rest) : splitText inTemplate (cs ++ rest) = (cs, rest) := by
  induction cs with
  | nil =>
    cases rest with
    | nil => rfl
    | cons d ds =>
      rcases hr with hr | hr
      · contradiction
      · simp [splitText, hr]
  | cons c cs ih =>
    have hi' : ¬ ['$', '\x7b'] <:+: cs := fun h => hi (List.infix_cons h)
    have hb' : inTemplate = true → '`' ∉ cs := fun ht h => hb ht (List.mem_cons_of_mem c h)
    rw [List.cons_append, splitText, if_neg (by simp [textEnds_append hi hb hr]), ih hi' hb']

theorem textLexeme_of_not_textEnds {c : Char} (h : textEnds inTemplate (c :: cs) = false) :
    textLexeme? inTemplate (c :: cs) =
      some ⟨.string, c :: (splitText inTemplate cs).1, (splitText inTemplate cs).2⟩ := by
  simp only [textEnds, Bool.or_eq_false_iff] at h
  unfold textLexeme?
  split
  · contradiction
  · next heq =>
    rw [heq] at h
    simp [atInterpolation] at h
  · next heq =>
    cases heq
    have htick : (inTemplate && c == '`') = false := by simpa using h.2
    simp [htick]

theorem textLexeme_plain (hcs : IsPlain inTemplate cs) (hr : EndsText inTemplate rest) :
    textLexeme? inTemplate (cs ++ rest) = some ⟨.string, cs, rest⟩ := by
  cases cs with
  | nil => exact absurd rfl hcs.nonempty
  | cons c cs =>
    have h := splitText_plain hcs.noInterpolation hcs.noBacktick hr
    have hne := textEnds_append hcs.noInterpolation hcs.noBacktick hr
    rw [List.cons_append, splitText, if_neg (by simp [hne])] at h
    rw [List.cons_append, textLexeme_of_not_textEnds hne]
    simp only [Prod.mk.injEq] at h
    rw [h.1, h.2]

end Scan

end MessageCatalog
