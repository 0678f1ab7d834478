import MessageCatalog.Proofs.Extension

/-!
# Spelled tokens

How a token of each kind stands in a text: what its span is, how its value is read off the span, and
what may follow it. Plain text goes on to the next interpolation, to the backtick of its template or
to the end of the text; a word goes on as long as there are characters of words; quoted text is
decoded only after it has been found, by a table that has every escape that may be in it. Whatever
lexeme the scanner takes off the front of a text is spelled in this way.
-/
namespace MessageCatalog
open Text

namespace Scan

variable {opener : Opener} {cs raw rest : List Char} {quote : Char}

/-- The texts that may stand between two quotes: a backslash stands only before one of five
characters, and the quote itself only after a backslash. -/
inductive IsQuoted (quote : Char) : List Char → Prop where
  | nil : IsQuoted quote []
  | escape {e : Char} {raw : List Char} : e ∈ ['"', '\'', '\\', 'r', 'n'] → IsQuoted quote raw →
      IsQuoted quote ('\\' :: e :: raw)
  | plain {c : Char} {raw : List Char} : c ≠ quote → c ≠ '\\' → IsQuoted quote raw →
      IsQuoted quote (c :: raw)

def decode? : List Char → Option (List Char)
  | [] => some []
  | '\\' :: e :: raw => (escape? e).bind fun c => (decode? raw).map (c :: ·)
  | c :: raw => (decode? raw).map (c :: ·)

theorem exists_escape {e : Char} (h : e ∈ ['"', '\'', '\\', 'r', 'n']) : ∃ c, escape? e = some c := by
  simp only [List.mem_cons, List.not_mem_nil, or_false] at h
  rcases h with rfl | rfl | rfl | rfl | rfl <;> exact ⟨_, rfl⟩

theorem mem_of_escape {e c : Char} (h : escape? e = some c) : e ∈ ['"', '\'', '\\', 'r', 'n'] := by
  unfold escape? at h
  split at h <;> simp_all

theorem decode_cons {c : Char} (h : c ≠ '\\') : decode? (c :: raw) = (decode? raw).map (c :: ·) := by
  simp [decode?, h]

theorem IsQuoted.exists_decode (h : IsQuoted quote raw) : ∃ value, decode? raw = some value := by
  induction h with
  | nil => exact ⟨[], rfl⟩
  | escape he _ ih =>
    obtain ⟨c, hc⟩ := exists_escape he
    obtain ⟨value, hvalue⟩ := ih
    exact ⟨c :: value, by simp [decode?, hc, hvalue]⟩
  | @plain c raw _ hb _ ih =>
    obtain ⟨value, hvalue⟩ := ih
    exact ⟨c :: value, by rw [decode_cons hb, hvalue, Option.map_some]⟩

theorem splitQuoted_spec {s : List Char × List Char} (h : splitQuoted quote cs = some s) :
    ∃ raw, cs = raw ++ quote :: s.2 ∧ IsQuoted quote raw ∧ decode? raw = some s.1 := by
  fun_induction splitQuoted quote cs generalizing s with
  | case1 => contradiction
  | case2 => contradiction
  | case3 e cs' ih =>
    simp only [Option.bind_eq_some_iff, Option.map_eq_some_iff] at h
    obtain ⟨c, hc, t, ht, rfl⟩ := h
    obtain ⟨raw, rfl, hraw, hdecode⟩ := ih ht
    exact ⟨'\\' :: e :: raw, rfl, .escape (mem_of_escape hc) hraw, by simp [decode?, hc, hdecode]⟩
  | case4 cs hb =>
    cases h
    exact ⟨[], rfl, .nil, rfl⟩
  | case5 c cs hb hc ih =>
    obtain ⟨t, ht, rfl⟩ := Option.map_eq_some_iff.1 h
    obtain ⟨raw, rfl, hraw, hdecode⟩ := ih ht
    have hbackslash : c ≠ '\\' := fun hc => hb hc
    exact ⟨c :: raw, rfl, .plain hc hbackslash hraw,
      by rw [decode_cons hbackslash, hdecode, Option.map_some]⟩

theorem splitQuoted_of_isQuoted (hq : IsQuote quote) (h : IsQuoted quote raw) {value : List Char}
    (hv : decode? raw = some value) (rest : List Char) :
    splitQuoted quote (raw ++ quote :: rest) = some (value, rest) := by
  induction h generalizing value with
  | nil =>
    cases hv
    rcases hq with rfl | rfl <;> simp [splitQuoted]
  | @escape e raw _ _ ih =>
    simp only [decode?, Option.bind_eq_some_iff, Option.map_eq_some_iff] at hv
    obtain ⟨c, hc, value, hvalue, rfl⟩ := hv
    simp [splitQuoted, hc, ih hvalue]
  | @plain c raw hne hb _ ih =>
    rw [decode_cons hb] at hv
    obtain ⟨value, hvalue, rfl⟩ := Option.map_eq_some_iff.1 hv
    simp [splitQuoted, hne, ih hvalue]

structure IsDigits (cs : List Char) : Prop where
  nonempty : cs ≠ []
  digit : ∀ c ∈ cs, isDecimalDigit c = true

inductive IsUnsigned : List Char → Prop where
  | whole {ds : List Char} : IsDigits ds → IsUnsigned ds
  | point {ds es : List Char} : IsDigits ds → IsDigits es → IsUnsigned (ds ++ '.' :: es)

inductive IsNumeral : List Char → Prop where
  | unsigned {cs : List Char} : IsUnsigned cs → IsNumeral cs
  | negative {cs : List Char} : IsUnsigned cs → IsNumeral ('-' :: cs)

theorem isDigits_takeWhile (h : (cs.takeWhile isDecimalDigit).isEmpty = false) :
    IsDigits (cs.takeWhile isDecimalDigit) :=
  ⟨by simpa using h, List.all_eq_true.1 List.all_takeWhile⟩

theorem splitUnsigned?_spec {s : List Char × List Char} (h : splitUnsigned? cs = some s) :
    cs = s.1 ++ s.2 ∧ IsUnsigned s.1 := by
  have hcs : cs.takeWhile isDecimalDigit ++ cs.dropWhile isDecimalDigit = cs :=
    List.takeWhile_append_dropWhile
  simp only [splitUnsigned?] at h
  split at h
  · contradiction
  · next hwhole =>
    have hdigits := isDigits_takeWhile (Bool.not_eq_true _ ▸ hwhole)
    split at h
    · next r hpoint =>
      split at h
      · cases h
        exact ⟨hcs.symm, .whole hdigits⟩
      · next hfraction =>
        cases h
        have hr : r.takeWhile isDecimalDigit ++ r.dropWhile isDecimalDigit = r :=
          List.takeWhile_append_dropWhile
        refine ⟨?_, .point hdigits (isDigits_takeWhile (Bool.not_eq_true _ ▸ hfraction))⟩
        rw [List.append_assoc, List.cons_append, hr, ← hpoint, hcs]
    · cases h
      exact ⟨hcs.symm, .whole hdigits⟩

theorem splitNumber?_spec {s : List Char × List Char} (h : splitNumber? cs = some s) :
    cs = s.1 ++ s.2 ∧ IsNumeral s.1 := by
  unfold splitNumber? at h
  split at h
  · obtain ⟨t, ht, rfl⟩ := Option.map_eq_some_iff.1 h
    obtain ⟨hcs, hunsigned⟩ := splitUnsigned?_spec ht
    exact ⟨congrArg ('-' :: ·) hcs, .negative hunsigned⟩
  · obtain ⟨hcs, hunsigned⟩ := splitUnsigned?_spec h
    exact ⟨hcs, .unsigned hunsigned⟩

def StopsWord (rest : List Char) : Prop := ∀ c ∈ rest.head?, isWord c = false

def sign? : TokenKind → Option String
  | .expressionStart => some "$\x7b"
  | .expressionEnd | .braceEnd => some "\x7d"
  | .braceStart => some "\x7b"
  | .templateStart | .templateEnd => some "`"
  | .bracketStart => some "["
  | .bracketEnd => some "]"
  | .parenEnd => some ")"
  | .comma => some ","
  | _ => none

/-- How a token stands in a text that is read in some mode: its kind, its value, the characters of
its span and the text after them. -/
inductive Spells : Mode → TokenKind → String → List Char → List Char → Prop where
  | text {inTemplate : Bool} {s : String} {rest : List Char} :
      IsPlain inTemplate s.toList → EndsText inTemplate rest →
      Spells (if inTemplate then .template else .body) .string s s.toList rest
  | sign {kind : TokenKind} {s : String} (mode : Mode) (rest : List Char) : sign? kind = some s →
      Spells mode kind s s.toList rest
  | quoted {quote : Char} {raw : List Char} {s : String} (rest : List Char) :
      IsQuote quote → IsQuoted quote raw → decode? raw = some s.toList →
      Spells .expression .string s (quote :: (raw ++ [quote])) rest
  | number {s : String} (rest : List Char) : IsNumeral s.toList →
      Spells .expression .number s s.toList rest
  | keyword {kind : TokenKind} {s : String} {rest : List Char} : keyword? s.toList = some kind →
      StopsWord rest → Spells .expression kind s s.toList rest
  | identifier {name : String} {rest : List Char} : IsName name → StopsWord rest →
      Spells .expression .identifier name name.toList rest
  | call {name : String} {blanks rest : List Char} : IsName name →
      (∀ c ∈ blanks, isBlank c = true) → StopsWord (blanks ++ '(' :: rest) →
      Spells .expression .functionCall name (name.toList ++ (blanks ++ ['('])) rest
  | property {name : String} {blanks rest : List Char} : IsName name →
      (∀ c ∈ blanks, isBlank c = true) → StopsWord (blanks ++ ':' :: rest) →
      Spells .expression .propertyName name (name.toList ++ (blanks ++ [':'])) rest

namespace Spells

variable {mode : Mode} {kind : TokenKind} {value : String} {span : List Char}

theorem isName (h : Spells mode kind value span rest)
    (hk : kind = .identifier ∨ kind = .functionCall ∨ kind = .propertyName) : IsName value := by
  cases h with
  | identifier hn _ => exact hn
  | call hn _ _ => exact hn
  | property hn _ _ => exact hn
  | text | quoted | number => simp at hk
  | sign _ _ hs => rcases hk with rfl | rfl | rfl <;> contradiction
  | keyword hkeyword _ => rcases keyword_kind hkeyword with rfl | rfl | rfl <;> simp at hk

theorem isNumeral (h : Spells mode kind value span rest) (hk : kind = .number) :
    IsNumeral value.toList := by
  cases h with
  | number _ hn => exact hn
  | sign _ _ hs =>
    subst hk
    contradiction
  | keyword hkeyword _ => rcases keyword_kind hkeyword with rfl | rfl | rfl <;> contradiction
  | _ => contradiction

end Spells

theorem stopsWord_dropWhile (cs : List Char) : StopsWord (cs.dropWhile isWord) := by
  intro c hc
  have hne : cs.dropWhile isWord ≠ [] := by
    intro hnil
    rw [hnil] at hc
    contradiction
  have hhead := List.head_dropWhile_not isWord (l := cs) hne
  rw [List.head?_eq_some_head hne] at hc
  cases hc
  exact hhead

theorem not_mem_keywords {name : String} (h : keyword? name.toList = none) : name ∉ keywords := by
  intro hm
  have hall : ∀ k ∈ keywords, keyword? k.toList ≠ none := by decide
  exact hall name hm h

theorem textLexeme_spells {inTemplate : Bool} {l : Lexeme}
    (h : textLexeme? inTemplate cs = some l) :
    ∃ span, cs = span ++ l.rest ∧ Spells (if inTemplate then .template else .body) l.kind
      (String.ofList l.value) span l.rest := by
  by_cases hk : l.kind = .string
  · obtain ⟨hcs, hplain, hends⟩ := textLexeme_string h hk
    rw [← String.toList_ofList (l := l.value)] at hcs hplain
    rw [hk]
    exact ⟨_, hcs, .text hplain hends⟩
  · unfold textLexeme? at h
    split at h
    · contradiction
    · cases h
      exact ⟨_, rfl, .sign (s := "$\x7b") _ _ rfl⟩
    · split at h
      · next htick =>
        simp only [Bool.and_eq_true, beq_iff_eq] at htick
        cases h
        exact ⟨['`'], by rw [htick.2]; rfl, .sign (s := "`") _ _ rfl⟩
      · cases h
        exact absurd rfl hk

theorem isName_takeWhile (hne : (cs.takeWhile isWord).isEmpty = false)
    (hd : ∀ c ∈ cs.head?, isDecimalDigit c = false)
    (hk : keyword? (cs.takeWhile isWord) = none) : IsName (String.ofList (cs.takeWhile isWord)) := by
  have hword : ∀ c ∈ cs.takeWhile isWord, isWord c = true := List.all_eq_true.1 List.all_takeWhile
  have hstart : ∀ c ∈ (cs.takeWhile isWord).head?, isDecimalDigit c = false := by
    obtain ⟨c, rest, rfl, hc⟩ := takeWhile_nonempty hne
    simpa [List.takeWhile, hc] using hd
  rw [← String.toList_ofList (l := cs.takeWhile isWord)] at hne hword hstart hk
  exact ⟨by simpa using hne, hword, hstart, not_mem_keywords hk⟩

theorem wordLexeme_spells {l : Lexeme} (h : wordLexeme? cs = some l)
    (hd : ∀ c ∈ cs.head?, isDecimalDigit c = false) :
    ∃ span, cs = span ++ l.rest ∧
      Spells .expression l.kind (String.ofList l.value) span l.rest := by
  have hcs : (String.ofList (cs.takeWhile isWord)).toList ++ cs.dropWhile isWord = cs := by
    rw [String.toList_ofList, List.takeWhile_append_dropWhile]
  have hstops := stopsWord_dropWhile cs
  have hblank : ∀ c ∈ (cs.dropWhile isWord).takeWhile isBlank, isBlank c = true :=
    List.all_eq_true.1 List.all_takeWhile
  have hblanks : (cs.dropWhile isWord).takeWhile isBlank ++ dropBlanks (cs.dropWhile isWord) =
      cs.dropWhile isWord := List.takeWhile_append_dropWhile
  simp only [wordLexeme?] at h
  split at h
  · contradiction
  · next hne =>
    split at h
    · next kind hk =>
      cases h
      exact ⟨_, hcs.symm, .keyword (by rw [String.toList_ofList, hk]) hstops⟩
    · next hk =>
      have hname := isName_takeWhile (Bool.not_eq_true _ ▸ hne) hd hk
      split at h
      · next r hparen =>
        cases h
        rw [hparen] at hblanks
        rw [← hblanks] at hstops
        refine ⟨_, ?_, .call hname hblank hstops⟩
        rw [List.append_assoc, List.append_assoc, List.singleton_append, hblanks, hcs]
      · next r hcolon =>
        cases h
        rw [hcolon] at hblanks
        rw [← hblanks] at hstops
        refine ⟨_, ?_, .property hname hblank hstops⟩
        rw [List.append_assoc, List.append_assoc, List.singleton_append, hblanks, hcs]
      · cases h
        exact ⟨_, hcs.symm, .identifier hname hstops⟩

theorem quoted_spells {s : List Char × List Char} (hq : IsQuote quote)
    (h : splitQuoted quote cs = some s) :
    ∃ span, quote :: cs = span ++ s.2 ∧
      Spells .expression .string (String.ofList s.1) span s.2 := by
  obtain ⟨raw, rfl, hraw, hdecode⟩ := splitQuoted_spec h
  refine ⟨quote :: (raw ++ [quote]), by simp, .quoted _ hq hraw ?_⟩
  rw [String.toList_ofList, hdecode]

theorem expressionLexeme_spells {l : Lexeme} (h : expressionLexeme? opener cs = some l) :
    ∃ span, cs = span ++ l.rest ∧
      Spells .expression l.kind (String.ofList l.value) span l.rest := by
  unfold expressionLexeme? at h
  split at h
  · obtain ⟨s, hs, rfl⟩ := Option.map_eq_some_iff.1 h
    exact quoted_spells (.inl rfl) hs
  · obtain ⟨s, hs, rfl⟩ := Option.map_eq_some_iff.1 h
    exact quoted_spells (.inr rfl) hs
  · cases h
    exact ⟨_, rfl, .sign (s := "[") _ _ rfl⟩
  · cases h
    exact ⟨_, rfl, .sign (s := "]") _ _ rfl⟩
  · cases h
    exact ⟨_, rfl, .sign (s := "\x7b") _ _ rfl⟩
  · cases h
    have hs : sign? (closingBrace opener) = some "\x7d" := by cases opener <;> rfl
    exact ⟨_, rfl, .sign (s := "\x7d") _ _ hs⟩
  · cases h
    exact ⟨_, rfl, .sign (s := ")") _ _ rfl⟩
  · cases h
    exact ⟨_, rfl, .sign (s := "`") _ _ rfl⟩
  · cases h
    exact ⟨_, rfl, .sign (s := ",") _ _ rfl⟩
  · split at h
    · next s hs =>
      cases h
      obtain ⟨hcs, hnumeral⟩ := splitNumber?_spec hs
      rw [← String.toList_ofList (l := s.1)] at hcs hnumeral
      exact ⟨_, hcs, .number _ hnumeral⟩
    · next hs =>
      refine wordLexeme_spells h fun c hc => ?_
      obtain ⟨d, ds, rfl, hd⟩ := wordLexeme?_head h
      cases hc
      exact isDecimalDigit_of_splitNumber?_none hs hd

theorem lexeme_spells {opened : List Opener} {l : Lexeme} (h : lexeme? opened cs = some l) :
    ∃ span, cs = span ++ l.rest ∧
      Spells (Mode.ofOpen opened) l.kind (String.ofList l.value) span l.rest := by
  unfold lexeme? at h
  split at h
  · exact textLexeme_spells h
  · exact textLexeme_spells h
  · next opener below hne =>
    have hmode : Mode.ofOpen (opener :: below) = .expression := by
      cases opener with
      | template => exact (hne rfl).elim
      | _ => rfl
    rw [hmode]
    exact expressionLexeme_spells h

end Scan

end MessageCatalog
