import MessageCatalog.PluralCategory
import MessageCatalog.Proofs.Numerals

/-!
# English categories of integers

The English rule looks at the digits of a number and not at its value. For an integer of either sign
that has a text its answers are those of arithmetic: an ordinal depends on the remainders by ten and
by a hundred, and only one is singular.
-/
namespace MessageCatalog

namespace Number

theorem natChars_of_lt {n : Nat} (h : n < 10) : natChars n = [Nat.digitChar n] :=
  Nat.toDigits_of_lt_base h

theorem natChars_of_ge {n : Nat} (h : 10 ≤ n) :
    natChars n = natChars (n / 10) ++ [Nat.digitChar (n % 10)] :=
  Nat.toDigits_of_base_le (by decide) h

theorem exists_natChars_eq_append {n : Nat} (h : 10 ≤ n) :
    ∃ cs, natChars n = cs ++ [Nat.digitChar (n / 10 % 10), Nat.digitChar (n % 10)] := by
  rw [natChars_of_ge h]
  by_cases htwo : n / 10 < 10
  · refine ⟨[], ?_⟩
    rw [natChars_of_lt htwo, Nat.mod_eq_of_lt htwo]
    rfl
  · refine ⟨natChars (n / 10 / 10), ?_⟩
    rw [natChars_of_ge (by omega)]
    simp

theorem natChars_inj {m n : Nat} : natChars m = natChars n ↔ m = n := by
  refine ⟨fun h => ?_, congrArg _⟩
  rw [← ofDigits_natChars m, h, ofDigits_natChars]

theorem not_mem_natChars {c : Char} (h : c.isDigit = false) (n : Nat) : c ∉ natChars n :=
  fun hc => by
    rw [isDigit_of_mem_natChars hc] at h
    contradiction

theorem dropWhile_minus_natChars (n : Nat) : (natChars n).dropWhile (· == '-') = natChars n :=
  dropWhile_eq_self fun c hc => by
    have hne : c ≠ '-' := fun h => not_mem_natChars rfl n (h ▸ hc)
    simpa using hne

theorem dropWhile_minus_intChars (n : Int) :
    (intChars n).dropWhile (· == '-') = natChars n.natAbs := by
  rw [intChars_eq]
  split
  · exact dropWhile_minus_natChars _
  · exact dropWhile_minus_natChars _

end Number

namespace PluralRule
open Number

def ordinalOf (n : Nat) : PluralCategory :=
  if n % 10 = 1 ∧ n % 100 ≠ 11 then .one
  else if n % 10 = 2 ∧ n % 100 ≠ 12 then .two
  else if n % 10 = 3 ∧ n % 100 ≠ 13 then .few
  else .other

def cardinalOf (n : Nat) : PluralCategory := if n = 1 then .one else .other

theorem ordinalOf_mod (n : Nat) : ordinalOf (n % 100) = ordinalOf n := by
  have h : n % 100 % 10 = n % 10 := by omega
  rw [ordinalOf, ordinalOf, h, Nat.mod_mod]

theorem lastChars_append {count : Nat} (cs : List Char) {ds : List Char} (h : count ≤ ds.length) :
    lastChars count (cs ++ ds) = lastChars count ds := by
  have hdrop : (cs ++ ds).length - count = cs.length + (ds.length - count) := by
    rw [List.length_append]
    omega
  rw [lastChars, hdrop, List.drop_length_add_append, lastChars]

theorem englishOrdinal_append (cs : List Char) {ds : List Char} (h : 2 ≤ ds.length) :
    englishOrdinal (cs ++ ds) = englishOrdinal ds := by
  simp only [englishOrdinal, lastChars_append cs h, lastChars_append cs (by omega : 1 ≤ ds.length)]

theorem englishOrdinal_digit : ∀ b < 10, englishOrdinal [Nat.digitChar b] = ordinalOf b := by
  decide

theorem englishOrdinal_digits : ∀ a < 10, ∀ b < 10,
    englishOrdinal [Nat.digitChar a, Nat.digitChar b] = ordinalOf (10 * a + b) := by
  decide

theorem englishOrdinal_natChars (n : Nat) : englishOrdinal (natChars n) = ordinalOf n := by
  by_cases h : n < 10
  · rw [natChars_of_lt h, englishOrdinal_digit n h]
  · obtain ⟨cs, hcs⟩ := exists_natChars_eq_append (by omega : 10 ≤ n)
    have htens : n / 10 % 10 < 10 := Nat.mod_lt _ (by decide)
    have hunits : n % 10 < 10 := Nat.mod_lt _ (by decide)
    have hn : 10 * (n / 10 % 10) + n % 10 = n % 100 := by omega
    rw [hcs, englishOrdinal_append cs (by simp), englishOrdinal_digits _ htens _ hunits, hn,
      ordinalOf_mod]

theorem takeWhile_point {cs : List Char} (h : '.' ∉ cs) (rest : List Char) :
    (cs ++ rest).takeWhile (· != '.') = cs ++ rest.takeWhile (· != '.') :=
  List.takeWhile_append_of_pos fun c hc => by simpa using fun hpoint : c = '.' => h (hpoint ▸ hc)

theorem dropWhile_point {cs : List Char} (h : '.' ∉ cs) (rest : List Char) :
    (cs ++ rest).dropWhile (· != '.') = rest.dropWhile (· != '.') :=
  List.dropWhile_append_of_pos fun c hc => by simpa using fun hpoint : c = '.' => h (hpoint ▸ hc)

theorem splitNumber_int (n : Int) : splitNumber (.int n) = (natChars n.natAbs, []) := by
  have hdisplay : (Value.int n).display.toList = intChars n := String.toList_ofList
  have hpoint : '.' ∉ natChars n.natAbs := not_mem_natChars rfl _
  have htake := takeWhile_point hpoint []
  have hdrop := dropWhile_point hpoint []
  rw [List.append_nil] at htake hdrop
  simp only [splitNumber, hdisplay, dropWhile_minus_intChars, htake, hdrop]
  simp

theorem ordinal_int (n : Int) : englishCategory (.int n) true = ordinalOf n.natAbs := by
  simp only [englishCategory, splitNumber_int]
  exact englishOrdinal_natChars _

theorem cardinal_int (n : Int) : englishCategory (.int n) false = cardinalOf n.natAbs := by
  have hone : ['1'] = natChars 1 := rfl
  simp only [englishCategory, splitNumber_int, hone, natChars_inj, cardinalOf]
  simp

theorem english_of_hasText {v : Value} (h : v.hasText = true) (ordinal : Bool) :
    english v ordinal = .ok (englishCategory v ordinal) := if_pos h

theorem english_int_eq (n : Int) (ordinal : Bool) : english (.int n) ordinal =
    if n.natAbs < 10 ^ maxDigits then .ok (englishCategory (.int n) ordinal)
    else .error .overlongInteger := by
  simp only [english, Value.hasText, hasText_iff]

/-- The category of an integer is that of its absolute value in arithmetic, up to the digit limit.
Beyond it there is no category. -/
theorem english_int (n : Int) :
    (english (.int n) true =
      if n.natAbs < 10 ^ maxDigits then .ok (ordinalOf n.natAbs) else .error .overlongInteger) ∧
    english (.int n) false =
      if n.natAbs < 10 ^ maxDigits then .ok (cardinalOf n.natAbs) else .error .overlongInteger := by
  rw [english_int_eq, english_int_eq, ordinal_int, cardinal_int]
  exact ⟨rfl, rfl⟩

/-- An integer beyond the limit is not `other`. -/
theorem english_int_overlong :
    ¬ ∀ n : Int, english (.int n) true = .ok (ordinalOf n.natAbs) ∧
      english (.int n) false = .ok (cardinalOf n.natAbs) := by
  intro h
  obtain ⟨hordinal, -⟩ := h (10 ^ maxDigits)
  rw [english, Value.hasText, hasText_pow] at hordinal
  contradiction

end PluralRule

end MessageCatalog
