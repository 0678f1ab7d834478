import MessageCatalog.Phrase.Assembly
import MessageCatalog.Proofs.TokenSpelling

/-!
# Numbers of every script

The text of a number has digits of any script, a point among them or not, and perhaps a minus sign.
Each digit is read as the ASCII digit of its value, and there are no blanks and no underscores in
the text, so nothing in it is refused: a token of a number has a value, unless it has no point and
more digits than the limit.
-/
namespace MessageCatalog
open Text Scan

namespace Number

variable {c : Char} {cs ds es : List Char}

theorem isDigit_plainChar (h : isDecimalDigit c = true) : (plainChar c).isDigit = true := by
  obtain ⟨n, hn⟩ := Option.isSome_iff_exists.1 h
  have hblank := isBlank_of_isDecimalDigit h
  have hdigit := Nat.isDigit_digitChar.trans (decide_eq_true (digitValue?_lt hn))
  unfold plainChar
  split
  · next hascii =>
    -- The digits of other scripts lie far above the ASCII characters.
    unfold digitValue? at hn
    split at hn
    · assumption
    · obtain ⟨first, hfirst, hz⟩ := List.exists_of_findSome?_eq_some hn
      have hall : ∀ z ∈ digitZeros, 127 ≤ z := by decide
      have := hall first hfirst
      split at hz
      · next hr =>
        simp only [Bool.and_eq_true, decide_eq_true_eq] at hr
        omega
      · contradiction
  · simp [hblank, hn, hdigit]

theorem isDigit_of_mem_map (h : IsDigits ds) : ∀ c ∈ ds.map plainChar, c.isDigit = true := by
  intro c hc
  obtain ⟨d, hd, rfl⟩ := List.mem_map.1 hc
  exact isDigit_plainChar (h.digit d hd)

theorem IsDigits.exists_cons (h : IsDigits ds) :
    ∃ c cs, ds.map plainChar = c :: cs ∧ c.isDigit = true := by
  have hdigit := isDigit_of_mem_map h
  obtain ⟨d, rest, rfl⟩ := List.exists_cons_of_ne_nil h.nonempty
  exact ⟨_, _, rfl, hdigit _ List.mem_cons_self⟩

theorem splitSign_append (h : IsDigits ds) (cs : List Char) :
    splitSign (ds.map plainChar ++ cs) = (false, ds.map plainChar ++ cs) := by
  obtain ⟨c, rest, hd, hdigit⟩ := IsDigits.exists_cons h
  rw [hd, List.cons_append, splitSign_of_isDigit hdigit]

theorem integerOfChars?_ne_none {negative : Bool} (hsign : splitSign cs = (negative, ds.map plainChar))
    (h : IsDigits ds) : integerOfChars? cs ≠ none := by
  have hne : (ds.map plainChar).isEmpty = false := by simpa using h.nonempty
  have hall : (ds.map plainChar).all Char.isDigit = true :=
    List.all_eq_true.2 (isDigit_of_mem_map h)
  simp [integerOfChars?, hsign, hne, hall]

theorem limitedInteger?_eq_none_iff {negative : Bool}
    (hsign : splitSign cs = (negative, ds.map plainChar)) (h : IsDigits ds) :
    limitedInteger? cs = none ↔ maxDigits < ds.length := by
  have hread := integerOfChars?_ne_none hsign h
  rw [limitedInteger?, hsign, List.length_map]
  split <;> simp_all

theorem exists_decimalOfChars (hd : IsDigits ds) (he : IsDigits es) (negative : Bool) :
    ∃ x, decimalOfChars? negative (ds.map plainChar ++ '.' :: es.map plainChar) = some x := by
  have hpoint : ∀ c ∈ ('.' :: es.map plainChar).head?, c.isDigit = false := by
    intro c hc
    cases hc
    rfl
  obtain ⟨hwhole, hrest⟩ := takeWhile_dropWhile_run (isDigit_of_mem_map hd) hpoint
  have hend : ∀ c ∈ ([] : List Char).head?, c.isDigit = false := by simp
  obtain ⟨hfraction, hnil⟩ := takeWhile_dropWhile_run (isDigit_of_mem_map he) hend
  rw [List.append_nil] at hfraction hnil
  have hne : (ds.map plainChar).isEmpty = false := by simpa using hd.nonempty
  simp [decimalOfChars?, hwhole, hrest, hfraction, hnil, hne, exponentOfChars?]

theorem exists_float {negative : Bool} (h : splitSign cs = (negative, ds))
    (hd : ∃ x, decimalOfChars? negative ds = some x) : ∃ x, floatOfChars? cs = some x := by
  obtain ⟨x, hx⟩ := hd
  simp only [floatOfChars?, h, hx, Option.map_some]
  split
  · exact ⟨_, rfl⟩
  · split <;> exact ⟨_, rfl⟩

theorem IsUnsigned.digit_or_point (h : IsUnsigned cs) :
    ∀ c ∈ cs, c = '.' ∨ isDecimalDigit c = true := by
  intro c hc
  cases h with
  | whole hd => exact .inr (hd.digit c hc)
  | point hd he =>
    rcases List.mem_append.1 hc with hc | hc
    · exact .inr (hd.digit c hc)
    · rcases List.mem_cons.1 hc with rfl | hc
      · exact .inl rfl
      · exact .inr (he.digit c hc)

theorem IsNumeral.char (h : IsNumeral cs) :
    ∀ c ∈ cs, c = '-' ∨ c = '.' ∨ isDecimalDigit c = true := by
  intro c hc
  cases h with
  | unsigned h => exact .inr (IsUnsigned.digit_or_point h c hc)
  | negative h =>
    rcases List.mem_cons.1 hc with rfl | hc
    · exact .inl rfl
    · exact .inr (IsUnsigned.digit_or_point h c hc)

theorem numeralChars?_of_isNumeral {s : String} (h : IsNumeral s.toList) :
    numeralChars? s = some (s.toList.map plainChar) := by
  have hbounds : ∀ c ∈ s.toList, 45 ≤ (plainChar c).toNat ∧ (plainChar c).toNat ≤ 57 := by
    intro c hc
    rcases IsNumeral.char h c hc with rfl | rfl | hd
    · decide
    · decide
    · have := isDigit_bounds (isDigit_plainChar hd)
      omega
  refine numeralChars?_eq_map (fun c hc => (hbounds c hc).1) fun c hc heq => ?_
  have hle := (hbounds c hc).2
  rw [heq] at hle
  exact absurd hle (by decide)

theorem IsDigits.point_not_mem (h : IsDigits ds) : '.' ∉ ds := fun hm =>
  absurd (h.digit '.' hm) (by decide +kernel)

def digitCount (s : String) : Nat := s.toList.countP isDecimalDigit

theorem IsDigits.countP_eq (h : IsDigits ds) : ds.countP isDecimalDigit = ds.length :=
  List.countP_eq_length.2 h.digit

/-- A text without a point that has more digits than the limit. -/
def IsOverlong (s : String) : Prop := '.' ∉ s.toList ∧ maxDigits < digitCount s

end Number

namespace Assembly

open Number

/-- The text of a number token has a value, an integer or a float, unless it is too long. -/
theorem numberValue?_eq_none_iff {s : String} (h : IsNumeral s.toList) :
    numberValue? s = none ↔ IsOverlong s := by
  have hchars := numeralChars?_of_isNumeral h
  have hinteger (hpoint : '.' ∉ s.toList) {n : Nat} (hcount : digitCount s = n)
      (hn : limitedInteger? (s.toList.map plainChar) = none ↔ maxDigits < n) :
      numberValue? s = none ↔ IsOverlong s := by
    rw [IsOverlong, hcount, ← hn]
    simp [numberValue?, hpoint, readInteger?, hchars]
  have hfloat (hpoint : '.' ∈ s.toList)
      (hx : ∃ x, floatOfChars? (s.toList.map plainChar) = some x) :
      numberValue? s = none ↔ IsOverlong s := by
    obtain ⟨x, hx⟩ := hx
    simp [IsOverlong, numberValue?, hpoint, readFloat?, hchars, hx]
  rw [digitCount] at hinteger
  generalize s.toList = cs at h hinteger hfloat
  cases h with
  | unsigned h =>
    cases h with
    | whole hd =>
      have hsign := splitSign_append hd []
      rw [List.append_nil] at hsign
      exact hinteger (IsDigits.point_not_mem hd) (IsDigits.countP_eq hd)
        (limitedInteger?_eq_none_iff hsign hd)
    | point hd he =>
      refine hfloat (by simp) ?_
      rw [List.map_append, List.map_cons]
      exact exists_float (splitSign_append hd _) (exists_decimalOfChars hd he false)
  | negative h =>
    cases h with
    | whole hd =>
      have hpoint := IsDigits.point_not_mem hd
      have hminus : isDecimalDigit '-' = false := by decide +kernel
      refine hinteger (by simpa using hpoint) ?_ (limitedInteger?_eq_none_iff rfl hd)
      rw [List.countP_cons_of_neg (by simp [hminus]), IsDigits.countP_eq hd]
    | point hd he =>
      refine hfloat (by simp) ?_
      rw [List.map_cons, List.map_append, List.map_cons]
      exact exists_float rfl (exists_decimalOfChars hd he true)

end Assembly

end MessageCatalog
