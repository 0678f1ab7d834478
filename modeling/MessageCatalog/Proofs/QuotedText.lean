import MessageCatalog.Proofs.JsonReading
import MessageCatalog.Text.Quoted

/-!
# Reading quoted text

Text between quotes can be read in one way only. The first quote tells which quote is escaped, the
letter after a backslash tells how many hexadecimal digits come next, and the text ends at the first
quote that is not escaped.
-/
namespace MessageCatalog.Text

def ofHexDigits (cs : List Char) : Nat := cs.foldl (fun n c => 16 * n + Value.hexValue c) 0

theorem hexValue_digitChar {n : Nat} (h : n < 16) : Value.hexValue (Nat.digitChar n) = n := by
  interval_cases n <;> rfl

theorem ofHexDigits_hexDigits (width n : Nat) : ofHexDigits (hexDigits width n) = n % 16 ^ width := by
  induction width generalizing n with
  | zero => simp [hexDigits, ofHexDigits, Nat.mod_one]
  | succ width ih =>
    have hfront := ih (n / 16)
    unfold ofHexDigits at hfront ⊢
    rw [hexDigits, List.foldl_append, hfront]
    simp only [List.foldl_cons, List.foldl_nil]
    rw [hexValue_digitChar (Nat.mod_lt n (by decide)), Nat.pow_succ', Nat.mod_mul, Nat.add_comm]

def hexWidth? : Char → Option Nat
  | 'x' => some 2
  | 'u' => some 4
  | 'U' => some 8
  | _ => none

def unescaped : Char → Char
  | 'n' => '\n'
  | 'r' => '\r'
  | 't' => '\t'
  | c => c

/-- The next character of quoted text, none at the quote that closes it. -/
def nextQuotedChar? (quote : Char) : List Char → Option (Char × List Char)
  | '\\' :: letter :: rest => match hexWidth? letter with
    | some width => some (Char.ofNat (ofHexDigits (rest.take width)), rest.drop width)
    | none => some (unescaped letter, rest)
  | c :: rest => if c = quote then none else some (c, rest)
  | [] => none

theorem nextQuotedChar_hex {letter : Char} {width : Nat} (hwidth : hexWidth? letter = some width)
    {c : Char} (hc : c.toNat < 16 ^ width) (quote : Char) (rest : List Char) :
    nextQuotedChar? quote ('\\' :: letter :: hexDigits width c.toNat ++ rest) = some (c, rest) := by
  have hlength := length_hexDigits width c.toNat
  have htake : (hexDigits width c.toNat ++ rest).take width = hexDigits width c.toNat := by
    rw [List.take_append_of_le_length (Nat.le_of_eq hlength.symm), List.take_of_length_le
      (Nat.le_of_eq hlength)]
  have hdrop : (hexDigits width c.toNat ++ rest).drop width = rest := by
    rw [List.drop_append_of_le_length (Nat.le_of_eq hlength.symm), List.drop_of_length_le
      (Nat.le_of_eq hlength), List.nil_append]
  simp only [List.cons_append, nextQuotedChar?, hwidth, htake, hdrop, ofHexDigits_hexDigits,
    Nat.mod_eq_of_lt hc, Char.ofNat_toNat]

theorem nextQuotedChar_quotedChar {quote : Char} (hquote : quote = '\'' ∨ quote = '"') (c : Char)
    (rest : List Char) : nextQuotedChar? quote (quotedChar quote c ++ rest) = some (c, rest) := by
  unfold quotedChar
  split
  · next h =>
    subst h
    rcases hquote with rfl | rfl <;> rfl
  next hne =>
  iterate 4
    split
    · next h =>
      subst h
      rfl
  next hslash _ _ _ =>
  split
  · rw [List.singleton_append, nextQuotedChar?]
    · rw [if_neg hne]
    · simp [hslash]
  split
  · next hc => exact nextQuotedChar_hex rfl hc quote rest
  split
  · next hc => exact nextQuotedChar_hex rfl hc quote rest
  · have hc : c.toNat < 16 ^ 8 := c.val.toNat_lt
    exact nextQuotedChar_hex rfl hc quote rest

theorem quoteFor_cases (cs : List Char) : quoteFor cs = '\'' ∨ quoteFor cs = '"' := by
  unfold quoteFor
  split
  · exact .inr rfl
  · exact .inl rfl

theorem quotedChars_append_inj {cs ds r s : List Char}
    (h : quotedChars cs ++ r = quotedChars ds ++ s) : cs = ds ∧ r = s := by
  simp only [quotedChars, List.cons_append, List.append_assoc, List.nil_append,
    List.cons.injEq] at h
  obtain ⟨hquote, h⟩ := h
  rw [← hquote] at h
  refine Value.escaped_append_inj (nextQuotedChar_quotedChar (quoteFor_cases cs)) (fun rest => ?_) h
  rcases quoteFor_cases cs with hq | hq <;> rw [hq] <;> rfl

theorem quoted_append_inj {a b : String} {r s : List Char}
    (h : (quoted a).toList ++ r = (quoted b).toList ++ s) : a = b ∧ r = s := by
  simp only [quoted, String.toList_ofList] at h
  obtain ⟨hab, hrest⟩ := quotedChars_append_inj h
  exact ⟨String.toList_inj.1 hab, hrest⟩

end MessageCatalog.Text
