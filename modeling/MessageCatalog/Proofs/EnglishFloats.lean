import MessageCatalog.Proofs.EnglishIntegers
import MessageCatalog.Proofs.PositionalFloats

/-!
# English categories of floats

The English rule looks at the text of a float. Below `10 ^ 16`, and down to `0.0001`, this text
tells the number: an integer has the category of the integer, and no other number is singular or
first, second or third. A float with an exponent is never singular either, but one with a single
digit has the ordinal category of its exponent.
-/
namespace MessageCatalog

namespace Number

structure AreDigits (cs : List Char) : Prop where
  ne_nil : cs ≠ []
  isDigit : ∀ c ∈ cs, c.isDigit = true

theorem areDigits_natChars (n : Nat) : AreDigits (natChars n) :=
  ⟨List.ne_nil_of_length_pos (length_natChars_pos n), fun _ => isDigit_of_mem_natChars⟩

namespace AreDigits

variable {cs : List Char}

theorem append_zeros (h : AreDigits cs) (zeros : Nat) :
    AreDigits (cs ++ List.replicate zeros '0') := by
  refine ⟨by simp [h.ne_nil], fun c hc => ?_⟩
  rw [List.mem_append, List.mem_replicate] at hc
  obtain hc | ⟨-, rfl⟩ := hc
  · exact h.isDigit c hc
  · rfl

theorem take (h : AreDigits cs) {count : Nat} (hcount : 0 < count) : AreDigits (cs.take count) := by
  refine ⟨fun htake => ?_, fun c hc => h.isDigit c (List.mem_of_mem_take hc)⟩
  obtain hzero | hnil := List.take_eq_nil_iff.1 htake
  · omega
  · exact h.ne_nil hnil

theorem not_mem_point (h : AreDigits cs) : '.' ∉ cs := fun hpoint =>
  absurd (h.isDigit _ hpoint) (by decide)

theorem dropWhile_minus (h : AreDigits cs) (rest : List Char) :
    (cs ++ rest).dropWhile (· == '-') = cs ++ rest := by
  obtain ⟨c, more, rfl⟩ := List.exists_cons_of_ne_nil h.ne_nil
  refine List.dropWhile_cons_of_neg fun hminus => ?_
  have hdigit := h.isDigit c List.mem_cons_self
  rw [eq_of_beq hminus] at hdigit
  contradiction

end AreDigits

theorem exists_positional {digits : List Char} (h : AreDigits digits) (point : Int) :
    ∃ whole fraction, positional digits point = whole ++ '.' :: fraction ∧ AreDigits whole ∧
      fraction ≠ [] := by
  unfold positional
  split
  · exact ⟨['0'], _, rfl, areDigits_natChars 0, by simp [h.ne_nil]⟩
  · next hpoint =>
    dsimp only
    split
    · exact ⟨_, ['0'], rfl, h.append_zeros _, by decide⟩
    · next hlength =>
      refine ⟨_, digits.drop point.toNat, rfl, h.take (by omega), fun hdrop => ?_⟩
      exact hlength (List.drop_eq_nil_iff.1 hdrop)

variable {m : Magnitude}

theorem IsPositional.exists_text (h : IsPositional m) :
    ∃ whole fraction, magnitudeChars m = whole ++ '.' :: fraction ∧ AreDigits whole ∧
      fraction ≠ [] := by
  have hpoint := (isPositional_iff m).1 h
  unfold pointOf at hpoint
  simp only [magnitudeChars]
  rw [if_pos hpoint]
  exact exists_positional (areDigits_natChars _) _

theorem magnitudeChars_of_not_positional (h : ¬ IsPositional m) :
    magnitudeChars m = scientific (natChars (shortest m).1) (pointOf m) := by
  rw [isPositional_iff] at h
  unfold pointOf at h ⊢
  simp only [magnitudeChars]
  rw [if_neg h]

end Number

namespace PluralRule
open Number

variable {negative : Bool} {m : Magnitude} {whole rest fraction : List Char}

theorem display_float (hwhole : AreDigits whole) (htext : magnitudeChars m = whole ++ rest) :
    (Value.float (.finite negative m)).display.toList.dropWhile (· == '-') = whole ++ rest := by
  have hdisplay : (Value.float (.finite negative m)).display.toList =
      (if negative then ['-'] else []) ++ magnitudeChars m := String.toList_ofList
  rw [hdisplay, htext]
  cases negative with
  | false => exact hwhole.dropWhile_minus rest
  | true => exact hwhole.dropWhile_minus rest

theorem splitNumber_of_point (negative : Bool) (hwhole : AreDigits whole)
    (htext : magnitudeChars m = whole ++ '.' :: fraction) :
    splitNumber (.float (.finite negative m)) = (whole,
      if fraction = ['0'] && Binary64.isIntegral (.finite negative m) then [] else fraction) := by
  have htake := takeWhile_point hwhole.not_mem_point ('.' :: fraction)
  have hdrop := dropWhile_point hwhole.not_mem_point ('.' :: fraction)
  simp only [splitNumber, display_float hwhole htext, htake, hdrop]
  simp
  split <;> rfl

theorem splitNumber_of_no_point (negative : Bool) (hwhole : AreDigits whole) (hrest : '.' ∉ rest)
    (htext : magnitudeChars m = whole ++ rest) :
    splitNumber (.float (.finite negative m)) = (whole ++ rest, []) := by
  have hpoint : '.' ∉ whole ++ rest := fun h =>
    (List.mem_append.1 h).elim hwhole.not_mem_point hrest
  have htake := takeWhile_point hpoint []
  have hdrop := dropWhile_point hpoint []
  rw [List.append_nil] at htake hdrop
  simp only [splitNumber, display_float hwhole htext, htake, hdrop]
  simp

theorem englishCategory_congr {v w : Value} (h : splitNumber v = splitNumber w) :
    englishCategory v = englishCategory w := by
  funext ordinal
  simp only [englishCategory, h]

theorem englishCategory_of_fraction {v : Value} (h : splitNumber v = (whole, fraction))
    (hne : fraction ≠ []) (ordinal : Bool) : englishCategory v ordinal = .other := by
  simp [englishCategory, h, hne]

theorem isIntegral_iff : Binary64.isIntegral (.finite negative m) = true ↔
    m.units = (m.units / unitsPerOne) * unitsPerOne := by
  rw [Binary64.isIntegral, beq_iff_eq, ← Nat.dvd_iff_mod_eq_zero, Nat.dvd_iff_div_mul_eq, eq_comm]

theorem natAbs_toInt :
    (Binary64.toInt (.finite negative m)).natAbs = m.units / unitsPerOne := by
  unfold Binary64.toInt
  cases negative with
  | false => rfl
  | true => exact Int.natAbs_neg _

theorem englishCategory_integer {k : Nat} (hk : m.units = k * unitsPerOne) (hlt : k < 10 ^ 16) :
    englishCategory (.float (.finite negative m)) =
      englishCategory (.int (Binary64.toInt (.finite negative m))) := by
  have hdiv : m.units / unitsPerOne = k := by rw [hk, Nat.mul_div_cancel _ unitsPerOne_pos]
  have hintegral : Binary64.isIntegral (.finite negative m) = true := by
    rw [isIntegral_iff, hdiv, hk]
  refine englishCategory_congr ?_
  rw [splitNumber_int, natAbs_toInt, hdiv,
    splitNumber_of_point negative (areDigits_natChars k) (magnitudeChars_integer hk hlt), hintegral]
  rfl

theorem englishCategory_fraction (h : IsPositional m)
    (hnot : Binary64.isIntegral (.finite negative m) = false) (ordinal : Bool) :
    englishCategory (.float (.finite negative m)) ordinal = .other := by
  obtain ⟨whole, fraction, htext, hwhole, hne⟩ := h.exists_text
  have hsplit := splitNumber_of_point negative hwhole htext
  rw [hnot, Bool.and_false, if_neg Bool.false_ne_true] at hsplit
  exact englishCategory_of_fraction hsplit hne ordinal

theorem length_natChars_lt_two {n : Nat} : (natChars n).length < 2 ↔ n < 10 :=
  Nat.lt_succ_iff.trans (length_natChars_le (by decide))

theorem exists_exponentChars (e : Int) :
    ∃ sign digits, exponentChars e = sign :: digits ∧ '.' ∉ sign :: digits ∧ 2 ≤ digits.length ∧
      englishOrdinal digits = ordinalOf e.natAbs := by
  refine ⟨if e < 0 then '-' else '+', _, rfl, ?_⟩
  have hsign : '.' ≠ if e < 0 then '-' else '+' := by split <;> decide
  generalize (if e < 0 then '-' else '+') = sign at hsign
  have hdigits : '.' ∉ natChars e.natAbs := not_mem_natChars rfl _
  split
  · next hshort =>
    have hlt := length_natChars_lt_two.1 hshort
    have hordinal := englishOrdinal_digits 0 (by decide) _ hlt
    rw [Nat.mul_zero, Nat.zero_add] at hordinal
    rw [natChars_of_lt hlt] at hdigits ⊢
    exact ⟨by simp [hsign], by simp, hordinal⟩
  · next hlong => exact ⟨by simpa [hsign] using hdigits, by omega, englishOrdinal_natChars _⟩

theorem englishCategory_single (h : ¬ IsPositional m) (hdigit : (shortest m).1 < 10) :
    englishCategory (.float (.finite negative m)) true = ordinalOf (shortest m).2.natAbs ∧
      englishCategory (.float (.finite negative m)) false = .other := by
  have hchars := natChars_of_lt hdigit
  have hpoint : pointOf m - 1 = (shortest m).2 := by
    rw [pointOf, hchars, List.length_singleton]
    omega
  obtain ⟨sign, digits, hexponent, hnot, hlength, hordinal⟩ := exists_exponentChars (shortest m).2
  have htext : magnitudeChars m = natChars (shortest m).1 ++ 'e' :: sign :: digits := by
    rw [magnitudeChars_of_not_positional h, scientific, hpoint, hchars, hexponent]
    rfl
  have hsplit := splitNumber_of_no_point negative (areDigits_natChars _)
    (by simpa using hnot) htext
  constructor
  · have hlast := englishOrdinal_append (natChars (shortest m).1 ++ ['e', sign]) hlength
    rw [List.append_assoc] at hlast
    simpa [englishCategory, hsplit, hordinal] using hlast
  · simp [englishCategory, hsplit, hchars]

theorem englishCategory_several (h : ¬ IsPositional m) (hdigits : ¬ (shortest m).1 < 10)
    (ordinal : Bool) : englishCategory (.float (.finite negative m)) ordinal = .other := by
  have hnumerals := areDigits_natChars (shortest m).1
  rw [← length_natChars_lt_two] at hdigits
  have hfirst := hnumerals.take (by decide : 0 < 1)
  have htext : ∃ rest, magnitudeChars m = (natChars (shortest m).1).take 1 ++ '.' :: rest ∧
      rest ≠ [] ∧ rest ≠ ['0'] := by
    rw [magnitudeChars_of_not_positional h, scientific]
    match natChars (shortest m).1, hdigits with
    | first :: second :: more, _ =>
      exact ⟨second :: more ++ 'e' :: exponentChars (pointOf m - 1), by simp, by simp, by simp⟩
    | [_], hshort => simp at hshort
    | [], hshort => simp at hshort
  obtain ⟨rest, htext, hne, hzero⟩ := htext
  have hsplit := splitNumber_of_point negative hfirst htext
  simp only [hzero, decide_false, Bool.false_and, Bool.false_eq_true, if_false] at hsplit
  exact englishCategory_of_fraction hsplit hne ordinal

theorem englishCategory_float (negative : Bool) (m : Magnitude) :
    let x := Binary64.finite negative m
    englishCategory (.float x) false =
        (if x.isIntegral then englishCategory (.int x.toInt) false else .other) ∧
      englishCategory (.float x) true =
        (if IsPositional m then
          if x.isIntegral then englishCategory (.int x.toInt) true else .other
        else if (shortest m).1 < 10 then ordinalOf (shortest m).2.natAbs else .other) := by
  intro x
  by_cases hpositional : IsPositional m
  · rw [if_pos hpositional]
    by_cases hintegral : x.isIntegral = true
    · have hk := isIntegral_iff.1 hintegral
      rw [if_pos hintegral, if_pos hintegral,
        englishCategory_integer hk (lt_of_isPositional hk hpositional)]
      exact ⟨rfl, rfl⟩
    · rw [if_neg hintegral, if_neg hintegral]
      have hfraction :=
        englishCategory_fraction hpositional (Bool.eq_false_of_not_eq_true hintegral)
      exact ⟨hfraction false, hfraction true⟩
  · have hcount : (if x.isIntegral then englishCategory (.int x.toInt) false else .other) =
        .other := by
      split
      · next hintegral =>
        have hk := isIntegral_iff.1 hintegral
        have hone : m.units / unitsPerOne ≠ 1 := fun hone =>
          hpositional (isPositional_integer hk (by omega))
        rw [cardinal_int, natAbs_toInt, cardinalOf, if_neg hone]
      · rfl
    rw [if_neg hpositional, hcount]
    split
    · next hdigit => exact (englishCategory_single hpositional hdigit).symm
    · next hdigits =>
      exact ⟨englishCategory_several hpositional hdigits false,
        englishCategory_several hpositional hdigits true⟩

theorem hasText_toInt (negative : Bool) (m : Magnitude) :
    Number.hasText (Binary64.toInt (.finite negative m)) = true := by
  have hlimit : unitsLimit = 2 ^ unitsWidth := by
    unfold unitsLimit
    generalize unitsWidth = n
    rfl
  rw [hasText_iff, natAbs_toInt]
  calc m.units / unitsPerOne ≤ m.units := Nat.div_le_self _ _
    _ < unitsLimit := m.units_lt
    _ = 2 ^ unitsWidth := hlimit
    _ ≤ 10 ^ unitsWidth := Nat.pow_le_pow_left (by decide) _
    _ ≤ 10 ^ maxDigits := Nat.pow_le_pow_right (by decide) (by decide)

/-- A float without an exponent has the categories of its number: those of the integer if it is one,
and `other` if it is not. With an exponent the count is never singular, which is right for these
numbers, but the ordinal looks at the digits of the exponent. -/
theorem english_float (negative : Bool) (m : Magnitude) :
    let x := Binary64.finite negative m
    english (.float x) false =
        (if x.isIntegral then english (.int x.toInt) false else .ok .other) ∧
      english (.float x) true =
        (if IsPositional m then if x.isIntegral then english (.int x.toInt) true else .ok .other
        else if (shortest m).1 < 10 then .ok (ordinalOf (shortest m).2.natAbs) else .ok .other) := by
  intro x
  obtain ⟨hcardinal, hordinal⟩ := englishCategory_float negative m
  have htext : (Value.int x.toInt).hasText = true := hasText_toInt negative m
  have hfloat : (Value.float x).hasText = true := rfl
  simp only [english_of_hasText htext, english_of_hasText hfloat, ← apply_ite Except.ok]
  exact ⟨congrArg Except.ok hcardinal, congrArg Except.ok hordinal⟩

/-- The float `1e21` is first, by the last digit of its exponent; the integer is not. -/
theorem english_float_exponent :
    let x := (⟨false, 1, 21⟩ : Decimal).toBinary64
    x.isIntegral = true ∧ x.toInt = 10 ^ 21 ∧ english (.float x) true = .ok .one ∧
      english (.int x.toInt) true = .ok .other := by
  decide +kernel

end PluralRule

end MessageCatalog
