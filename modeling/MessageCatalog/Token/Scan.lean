import MessageCatalog.Text.Blank
import MessageCatalog.Text.DecimalDigit
import MessageCatalog.Text.WordChar
import MessageCatalog.Token.SyntaxError

/-!
# Scanning

Splits a text into tokens. A lexeme is taken off the front of the text by the rules of the current
mode; in expressions the blanks before it are skipped. Plain text runs up to the next `${` (in a
template also up to the backtick). A name is a run of word characters, and what follows it after
blanks makes it a call or a property. Each lexeme shortens the text, so scanning ends.
-/
namespace MessageCatalog
open Text

structure Lexeme where
  kind : TokenKind
  value : List Char
  rest : List Char

namespace Scan

def atInterpolation : List Char → Bool
  | '$' :: '\x7b' :: _ => true
  | _ => false

def textEnds (inTemplate : Bool) (cs : List Char) : Bool :=
  atInterpolation cs || (inTemplate && cs.head? == some '`')

def splitText (inTemplate : Bool) : List Char → List Char × List Char
  | [] => ([], [])
  | c :: cs =>
    if textEnds inTemplate (c :: cs) then ([], c :: cs)
    else (c :: (splitText inTemplate cs).1, (splitText inTemplate cs).2)

def escape? : Char → Option Char
  | '"' => some '"'
  | '\'' => some '\''
  | '\\' => some '\\'
  | 'n' => some '\n'
  | 'r' => some '\r'
  | _ => none

def splitQuoted (quote : Char) : List Char → Option (List Char × List Char)
  | [] => none
  | '\\' :: cs =>
    match cs with
    | [] => none
    | e :: cs' => (escape? e).bind fun c => (splitQuoted quote cs').map fun s => (c :: s.1, s.2)
  | c :: cs =>
    if c = quote then some ([], cs) else (splitQuoted quote cs).map fun s => (c :: s.1, s.2)

/-- The longest number without a sign, and what follows it. A point belongs to it if a digit
follows. -/
def splitUnsigned? (cs : List Char) : Option (List Char × List Char) :=
  let whole := cs.takeWhile isDecimalDigit
  let rest := cs.dropWhile isDecimalDigit
  if whole.isEmpty then none
  else match rest with
    | '.' :: r =>
      let fraction := r.takeWhile isDecimalDigit
      if fraction.isEmpty then some (whole, rest)
      else some (whole ++ '.' :: fraction, r.dropWhile isDecimalDigit)
    | _ => some (whole, rest)

def splitNumber? : List Char → Option (List Char × List Char)
  | '-' :: cs => (splitUnsigned? cs).map fun s => ('-' :: s.1, s.2)
  | cs => splitUnsigned? cs

def keyword? (word : List Char) : Option TokenKind :=
  if word = "true".toList ∨ word = "false".toList then some .boolean
  else if word = "null".toList then some .null
  else if word = "undefined".toList then some .undefined
  else none

/-- A word: a keyword, or a name, which is a call or a property if `(` or `:` follows. -/
def wordLexeme? (cs : List Char) : Option Lexeme :=
  let word := cs.takeWhile isWord
  let rest := cs.dropWhile isWord
  if word.isEmpty then none
  else match keyword? word with
    | some kind => some ⟨kind, word, rest⟩
    | none => match dropBlanks rest with
      | '(' :: r => some ⟨.functionCall, word, r⟩
      | ':' :: r => some ⟨.propertyName, word, r⟩
      | _ => some ⟨.identifier, word, rest⟩

def textLexeme? (inTemplate : Bool) : List Char → Option Lexeme
  | [] => none
  | '$' :: '\x7b' :: rest => some ⟨.expressionStart, ['$', '\x7b'], rest⟩
  | c :: cs =>
    if inTemplate && c == '`' then some ⟨.templateEnd, ['`'], cs⟩
    else some ⟨.string, c :: (splitText inTemplate cs).1, (splitText inTemplate cs).2⟩

def closingBrace : Opener → TokenKind
  | .interpolation => .expressionEnd
  | _ => .braceEnd

def expressionLexeme? (opener : Opener) : List Char → Option Lexeme
  | '"' :: rest => (splitQuoted '"' rest).map fun s => ⟨.string, s.1, s.2⟩
  | '\'' :: rest => (splitQuoted '\'' rest).map fun s => ⟨.string, s.1, s.2⟩
  | '[' :: rest => some ⟨.bracketStart, ['['], rest⟩
  | ']' :: rest => some ⟨.bracketEnd, [']'], rest⟩
  | '\x7b' :: rest => some ⟨.braceStart, ['\x7b'], rest⟩
  | '\x7d' :: rest => some ⟨closingBrace opener, ['\x7d'], rest⟩
  | ')' :: rest => some ⟨.parenEnd, [')'], rest⟩
  | '`' :: rest => some ⟨.templateStart, ['`'], rest⟩
  | ',' :: rest => some ⟨.comma, [','], rest⟩
  | cs => match splitNumber? cs with
    | some s => some ⟨.number, s.1, s.2⟩
    | none => wordLexeme? cs

def lexeme? (opened : List Opener) (cs : List Char) : Option Lexeme :=
  match opened with
  | [] => textLexeme? false cs
  | .template :: _ => textLexeme? true cs
  | opener :: _ => expressionLexeme? opener cs

def skip (opened : List Opener) (cs : List Char) : List Char :=
  match Mode.ofOpen opened with
  | .expression => dropBlanks cs
  | _ => cs

theorem splitText_append (inTemplate : Bool) (cs : List Char) :
    (splitText inTemplate cs).1 ++ (splitText inTemplate cs).2 = cs := by
  induction cs with
  | nil => rfl
  | cons c cs ih =>
    simp only [splitText]
    split
    · rfl
    · simp [ih]

theorem length_splitText_le (inTemplate : Bool) (cs : List Char) :
    (splitText inTemplate cs).2.length ≤ cs.length := by
  have h := congrArg List.length (splitText_append inTemplate cs)
  simp only [List.length_append] at h
  omega

theorem length_splitQuoted_lt {quote : Char} {cs : List Char} {s : List Char × List Char}
    (h : splitQuoted quote cs = some s) : s.2.length < cs.length := by
  fun_induction splitQuoted quote cs generalizing s with
  | case1 => simp at h
  | case2 => simp at h
  | case3 e cs' ih =>
    simp only [Option.bind_eq_some_iff, Option.map_eq_some_iff] at h
    obtain ⟨c, -, t, ht, rfl⟩ := h
    have := ih ht
    simp only [List.length_cons]
    omega
  | case4 cs =>
    simp only [Option.some.injEq] at h
    simp [← h]
  | case5 c cs hb hc ih =>
    simp only [Option.map_eq_some_iff] at h
    obtain ⟨t, ht, rfl⟩ := h
    have := ih ht
    simp only [List.length_cons]
    omega

theorem length_dropWhile_lt {p : Char → Bool} {cs : List Char}
    (h : (cs.takeWhile p).isEmpty = false) :
    (cs.dropWhile p).length < cs.length := by
  have hl := congrArg List.length (List.takeWhile_append_dropWhile (p := p) (l := cs))
  simp only [List.length_append] at hl
  have h0 : 0 < (cs.takeWhile p).length := by
    cases ht : cs.takeWhile p with
    | nil => simp [ht] at h
    | cons => simp
  omega

theorem length_splitUnsigned_lt {cs : List Char} {s : List Char × List Char}
    (h : splitUnsigned? cs = some s) : s.2.length < cs.length := by
  simp only [splitUnsigned?] at h
  split at h
  · simp at h
  · next hne =>
    have hlt := length_dropWhile_lt (Bool.not_eq_true _ ▸ hne)
    split at h
    · next r hr =>
      rw [hr, List.length_cons] at hlt
      have hd : (r.dropWhile isDecimalDigit).length ≤ r.length :=
        (List.dropWhile_sublist _).length_le
      split at h
      all_goals
        simp only [Option.some.injEq] at h
        simp only [← h]
      · rw [hr, List.length_cons]
        exact hlt
      · omega
    · simp only [Option.some.injEq] at h
      simpa only [← h] using hlt

theorem length_splitNumber_lt {cs : List Char} {s : List Char × List Char}
    (h : splitNumber? cs = some s) : s.2.length < cs.length := by
  unfold splitNumber? at h
  split at h
  · simp only [Option.map_eq_some_iff] at h
    obtain ⟨t, ht, rfl⟩ := h
    have := length_splitUnsigned_lt ht
    simp only [List.length_cons]
    omega
  · exact length_splitUnsigned_lt h

theorem length_wordLexeme_lt {cs : List Char} {l : Lexeme} (h : wordLexeme? cs = some l) :
    l.rest.length < cs.length := by
  simp only [wordLexeme?] at h
  split at h
  · simp at h
  · next hne =>
    have hlt := length_dropWhile_lt (Bool.not_eq_true _ ▸ hne)
    have hd := length_dropBlanks_le (cs.dropWhile isWord)
    split at h
    · simp only [Option.some.injEq] at h
      simp [← h, hlt]
    · split at h
      all_goals
        simp only [Option.some.injEq] at h
        rw [← h]
      · next r hr =>
        rw [hr, List.length_cons] at hd
        simp only
        omega
      · next r hr =>
        rw [hr, List.length_cons] at hd
        simp only
        omega
      · exact hlt

theorem length_textLexeme_lt {inTemplate : Bool} {cs : List Char} {l : Lexeme}
    (h : textLexeme? inTemplate cs = some l) : l.rest.length < cs.length := by
  unfold textLexeme? at h
  split at h
  · simp at h
  · simp only [Option.some.injEq] at h
    simp only [← h, List.length_cons]
    omega
  · next c cs _ =>
    have := length_splitText_le inTemplate cs
    split at h
    all_goals
      simp only [Option.some.injEq] at h
      simp only [← h, List.length_cons]
      omega

theorem length_expressionLexeme_lt {opener : Opener} {cs : List Char} {l : Lexeme}
    (h : expressionLexeme? opener cs = some l) : l.rest.length < cs.length := by
  unfold expressionLexeme? at h
  split at h
  iterate 2
    simp only [Option.map_eq_some_iff] at h
    obtain ⟨s, hs, rfl⟩ := h
    have := length_splitQuoted_lt hs
    simp only [List.length_cons]
    omega
  iterate 7
    simp only [Option.some.injEq] at h
    simp [← h]
  · split at h
    · next s hs =>
      simp only [Option.some.injEq] at h
      simp [← h, length_splitNumber_lt hs]
    · exact length_wordLexeme_lt h

theorem length_lexeme_lt {opened : List Opener} {cs : List Char} {l : Lexeme}
    (h : lexeme? opened cs = some l) : l.rest.length < cs.length := by
  unfold lexeme? at h
  split at h
  · exact length_textLexeme_lt h
  · exact length_textLexeme_lt h
  · exact length_expressionLexeme_lt h

theorem length_skip_le (opened : List Opener) (cs : List Char) :
    (skip opened cs).length ≤ cs.length := by
  unfold skip
  split
  · exact length_dropBlanks_le cs
  · exact Nat.le_refl _

def tokensFrom (opened : List Opener) (position : Nat) (cs : List Char) :
    Except SyntaxError (List Token) :=
  let start := position + (cs.length - (skip opened cs).length)
  match _hf : skip opened cs with
  | [] => .ok []
  | c :: rest =>
    match hl : lexeme? opened (c :: rest) with
    | none => .error ⟨.unexpectedCharacter c (Mode.ofOpen opened), start⟩
    | some l =>
      (tokensFrom (openAfter opened l.kind) (start + (rest.length + 1 - l.rest.length)) l.rest).map
        (⟨l.kind, String.ofList l.value, start⟩ :: ·)
termination_by cs.length
decreasing_by
  have h1 := length_skip_le opened cs
  have h2 := length_lexeme_lt hl
  rw [_hf] at h1
  simp only [List.length_cons] at h1 h2
  omega

end Scan

/-- Splits the text of a phrase into tokens. It fails at the first character that begins none. -/
def Token.scan (text : String) : Except SyntaxError (List Token) :=
  Scan.tokensFrom [] 0 text.toList

end MessageCatalog
