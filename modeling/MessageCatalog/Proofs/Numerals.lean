import Mathlib.Tactic.NormNum
import MessageCatalog.Number.Numeral
import MessageCatalog.Number.Text
import MessageCatalog.Proofs.CharacterClasses

/-!
# Reading integers back

The text of an integer is a sign and ASCII digits. It has no blanks and no underscores, so nothing
changes it before it is read, and reading it gives the integer back.
-/
namespace MessageCatalog.Number

theorem length_natChars_le {n k : Nat} (hk : 0 < k) : (natChars n).length ≤ k ↔ n < 10 ^ k :=
  Nat.length_toDigits_le_iff (by decide) hk

theorem hasText_iff {n : Int} : hasText n = true ↔ n.natAbs < 10 ^ maxDigits := by
  rw [hasText, decide_eq_true_iff, length_natChars_le (by decide)]

theorem hasText_pow : hasText (10 ^ maxDigits) = false := by
  have hten : Int.natAbs 10 = 10 := rfl
  rw [Bool.eq_false_iff, ne_eq, hasText_iff, Int.natAbs_pow, hten]
  exact Nat.lt_irrefl _

theorem isDigit_of_mem_natChars {c : Char} {n : Nat} (h : c ∈ natChars n) : c.isDigit = true :=
  Nat.isDigit_of_mem_toDigits (by omega) (by omega) h

theorem exists_natChars_eq_cons (n : Nat) : ∃ c cs, natChars n = c :: cs ∧ c.isDigit = true := by
  cases hn : natChars n with
  | nil => exact absurd hn Nat.toDigits_ne_nil
  | cons c cs => exact ⟨c, cs, rfl, isDigit_of_mem_natChars (n := n) (by rw [hn]; simp)⟩

theorem ofDigits_natChars (n : Nat) : ofDigits (natChars n) = n := by
  have hn : Nat.ofDigitChars 10 (natChars n) 0 = n := Nat.ofDigitChars_ten_toDigits
  rw [Nat.ofDigitChars_eq_foldl] at hn
  simp only [Nat.mul_comm 10] at hn
  exact hn

theorem intChars_eq (n : Int) :
    intChars n = (if n < 0 then ['-'] else []) ++ natChars n.natAbs := by
  unfold intChars
  split <;> rfl

theorem isDigit_of_mem_intChars {c : Char} {n : Int} (h : c ∈ intChars n) :
    c = '-' ∨ c.isDigit = true := by
  rw [intChars_eq, List.mem_append] at h
  rcases h with h | h
  · split at h
    · exact .inl (List.mem_singleton.1 h)
    · cases h
  · exact .inr (isDigit_of_mem_natChars h)

theorem toNat_of_mem_intChars {c : Char} {n : Int} (h : c ∈ intChars n) :
    45 ≤ c.toNat ∧ c.toNat ≤ 57 := by
  rcases isDigit_of_mem_intChars h with rfl | hd
  · decide
  · have := Text.isDigit_bounds hd
    omega

theorem plainChar_of_lt {c : Char} (h : c.toNat < 127) : plainChar c = c := by
  rw [plainChar, if_pos h]

theorem isPadding_of_gt {c : Char} (h : 45 ≤ c.toNat) : isPadding c = false := by
  have hs : c ≠ ' ' := by
    rintro rfl
    contradiction
  have h13 : ¬ c.toNat ≤ 13 := by omega
  simp [isPadding, hs, h13]

theorem dropWhile_eq_self {p : Char → Bool} {cs : List Char} (h : ∀ c ∈ cs, p c = false) :
    cs.dropWhile p = cs := by
  cases cs with
  | nil => rfl
  | cons c cs => simp [List.dropWhile, h c List.mem_cons_self]

theorem stripPadding_eq_self {cs : List Char} (h : ∀ c ∈ cs, isPadding c = false) :
    stripPadding cs = cs := by
  have hr : ∀ c ∈ cs.reverse, isPadding c = false := fun c hc => h c (List.mem_reverse.1 hc)
  rw [stripPadding, dropWhile_eq_self h, dropWhile_eq_self hr, List.reverse_reverse]

theorem joinDigits?_eq_self {cs : List Char} (h : '_' ∉ cs) (afterDigit : Bool) :
    joinDigits? afterDigit cs = some cs := by
  induction cs generalizing afterDigit with
  | nil => rfl
  | cons c cs ih =>
    have hc : c ≠ '_' := fun hc => h (hc ▸ List.mem_cons_self)
    have hcs : '_' ∉ cs := fun hm => h (List.mem_cons_of_mem c hm)
    unfold joinDigits?
    split
    · contradiction
    · next heq =>
      cases heq
      exact absurd rfl hc
    · next heq =>
      cases heq
      simp [hc, ih hcs]

theorem numeralChars?_eq_map {s : String} (hlow : ∀ c ∈ s.toList, 45 ≤ (plainChar c).toNat)
    (hunder : ∀ c ∈ s.toList, plainChar c ≠ '_') :
    numeralChars? s = some (s.toList.map plainChar) := by
  have hpad : ∀ c ∈ s.toList.map plainChar, isPadding c = false := by
    intro c hc
    obtain ⟨d, hd, rfl⟩ := List.mem_map.1 hc
    exact isPadding_of_gt (hlow d hd)
  have hmem : '_' ∉ s.toList.map plainChar := by
    intro hm
    obtain ⟨d, hd, heq⟩ := List.mem_map.1 hm
    exact hunder d hd heq
  rw [numeralChars?, stripPadding_eq_self hpad, joinDigits?_eq_self hmem]

theorem numeralChars?_intText (n : Int) : numeralChars? (intText n) = some (intChars n) := by
  have hchars : (intText n).toList = intChars n := String.toList_ofList
  have hplain : ∀ c ∈ intChars n, plainChar c = c := fun c hc =>
    plainChar_of_lt (by have := (toNat_of_mem_intChars hc).2; omega)
  have hlow : ∀ c ∈ (intText n).toList, 45 ≤ (plainChar c).toNat := by
    intro c hc
    rw [hchars] at hc
    rw [hplain c hc]
    exact (toNat_of_mem_intChars hc).1
  have hunder : ∀ c ∈ (intText n).toList, plainChar c ≠ '_' := by
    intro c hc heq
    rw [hchars] at hc
    rw [hplain c hc] at heq
    rw [heq] at hc
    exact absurd (toNat_of_mem_intChars hc).2 (by decide)
  rw [numeralChars?_eq_map hlow hunder, hchars, List.map_congr_left (g := id) hplain, List.map_id]

theorem splitSign_of_isDigit {c : Char} {cs : List Char} (h : c.isDigit = true) :
    splitSign (c :: cs) = (false, c :: cs) := by
  unfold splitSign
  split
  · next heq =>
    cases heq
    contradiction
  · next heq =>
    cases heq
    contradiction
  · rfl

theorem splitSign_natChars (n : Nat) : splitSign (natChars n) = (false, natChars n) := by
  obtain ⟨c, cs, hn, hd⟩ := exists_natChars_eq_cons n
  rw [hn, splitSign_of_isDigit hd]

theorem splitSign_intChars (n : Int) :
    splitSign (intChars n) = (decide (n < 0), natChars n.natAbs) := by
  by_cases hn : n < 0
  · simp [intChars, hn, splitSign]
  · simp [intChars, hn, splitSign_natChars]

theorem signed_natAbs (n : Int) : signed (decide (n < 0)) n.natAbs = n := by
  by_cases hn : n < 0
  · simp only [signed, hn, decide_true, if_true]
    omega
  · simp only [signed, hn, decide_false, Bool.false_eq_true, if_false]
    omega

theorem integerOfChars?_intChars (n : Int) : integerOfChars? (intChars n) = some n := by
  have hne : (natChars n.natAbs).isEmpty = false := by
    obtain ⟨c, cs, hn, -⟩ := exists_natChars_eq_cons n.natAbs
    rw [hn]
    rfl
  have hall : (natChars n.natAbs).all Char.isDigit = true :=
    List.all_eq_true.2 fun c hc => isDigit_of_mem_natChars hc
  simp only [integerOfChars?, splitSign_intChars, hne, hall, ofDigits_natChars, signed_natAbs]
  rfl

theorem limitedInteger?_intChars (n : Int) :
    limitedInteger? (intChars n) = if hasText n then some n else none := by
  simp only [limitedInteger?, splitSign_intChars, integerOfChars?_intChars, hasText,
    decide_eq_true_eq]
  split <;> split <;> first | rfl | omega

theorem readInteger?_intText (n : Int) :
    readInteger? (intText n) = if hasText n then some n else none := by
  rw [readInteger?, numeralChars?_intText, Option.bind_some, limitedInteger?_intChars]

theorem foldl_digits_lt (ds : List Char) (h : ∀ c ∈ ds, c.isDigit = true) (a : Nat) :
    ds.foldl (fun n c => n * 10 + (c.toNat - 48)) a < (a + 1) * 10 ^ ds.length := by
  induction ds generalizing a with
  | nil => simp
  | cons c ds ih =>
    obtain ⟨hc, hds⟩ := List.forall_mem_cons.1 h
    have hdigit := Text.isDigit_bounds hc
    calc _ < (a * 10 + (c.toNat - 48) + 1) * 10 ^ ds.length := ih hds _
      _ ≤ ((a + 1) * 10) * 10 ^ ds.length := Nat.mul_le_mul_right _ (by omega)
      _ = (a + 1) * 10 ^ (c :: ds).length := by
        rw [List.length_cons, Nat.pow_succ, Nat.mul_assoc, Nat.mul_comm 10]

theorem natAbs_signed (negative : Bool) (n : Nat) : (signed negative n).natAbs = n := by
  cases negative <;> simp [signed]

theorem hasText_of_limitedInteger? {cs : List Char} {n : Int} (h : limitedInteger? cs = some n) :
    hasText n = true := by
  unfold limitedInteger? integerOfChars? at h
  generalize splitSign cs = sign at h
  obtain ⟨negative, ds⟩ := sign
  dsimp only at h
  split at h
  · contradiction
  · next hlimit =>
    split at h
    · contradiction
    · next hdigits =>
      cases h
      have hall : ∀ c ∈ ds, c.isDigit = true := by simp_all
      have hlt := foldl_digits_lt ds hall 0
      rw [hasText_iff, natAbs_signed]
      rw [Nat.zero_add, Nat.one_mul] at hlt
      exact Nat.lt_of_lt_of_le hlt (Nat.pow_le_pow_right (by decide) (Nat.not_lt.1 hlimit))

theorem hasText_of_readInteger? {s : String} {n : Int} (h : readInteger? s = some n) :
    hasText n = true := by
  obtain ⟨cs, -, hcs⟩ := Option.bind_eq_some_iff.1 h
  exact hasText_of_limitedInteger? hcs

end MessageCatalog.Number
