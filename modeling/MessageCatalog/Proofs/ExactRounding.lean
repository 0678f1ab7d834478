import Mathlib.Tactic.NormNum
import MessageCatalog.Proofs.Numerals

/-!
# Exact rounding

A decimal that is a number of units which 53 binary digits can hold is read as just this number. So
are all integers up to `2 ^ 53`, and the even ones up to `2 ^ 54`. From `2 ^ (e + 52)` units on, the
magnitudes are multiples of `2 ^ e` units.
-/
namespace MessageCatalog.Number

theorem unitsPerOne_pos : 0 < unitsPerOne := by
  unfold unitsPerOne
  generalize 1074 = n
  exact Nat.two_pow_pos n

theorem divRoundEven_cases (n d : Nat) :
    divRoundEven n d = n / d ∨ divRoundEven n d = n / d + 1 := by
  have h := Nat.mod_lt (n / d) (by decide : 0 < 2)
  simp only [divRoundEven]
  split
  · exact .inl rfl
  · split <;> omega

theorem divRoundEven_mul (k : Nat) {d : Nat} (h : 0 < d) : divRoundEven (k * d) d = k := by
  simp only [divRoundEven, Nat.mul_div_cancel k h, Nat.mul_mod_left]
  rw [if_pos (by omega)]

theorem two_mul_divRoundEven_le (n d : Nat) : 2 * (divRoundEven n d * d) ≤ 2 * n + d := by
  have hn := Nat.div_add_mod n d
  rw [Nat.mul_comm] at hn
  simp only [divRoundEven]
  split
  · omega
  · have hparity := Nat.mod_lt (n / d) (by decide : 0 < 2)
    split
    · rw [Nat.add_mul]
      omega
    · have hle : (n / d + n / d % 2) * d ≤ (n / d + 1) * d := Nat.mul_le_mul_right d (by omega)
      rw [Nat.add_mul (n / d) 1] at hle
      omega

theorem roundUnits_of_dvd {n : Nat} (h : Nat.pow 2 (gapExponent n) ∣ n) : roundUnits n 1 = n := by
  obtain ⟨t, ht⟩ := h
  have hn : n = t * Nat.pow 2 (gapExponent n) := by rwa [Nat.mul_comm] at ht
  have hround : divRoundEven n (Nat.pow 2 (gapExponent n)) = t := by
    have hmul := divRoundEven_mul t (Nat.two_pow_pos (gapExponent n))
    change divRoundEven (t * Nat.pow 2 (gapExponent n)) _ = t at hmul
    rwa [← hn] at hmul
  simp only [roundUnits, Nat.div_one, Nat.one_mul, hround]
  exact hn.symm

theorem Magnitude.ext {m n : Magnitude} (h : m.units = n.units) : m = n := by
  obtain ⟨units, _, _⟩ := m
  obtain ⟨_, _, _⟩ := n
  cases h
  rfl

theorem ofRatio?_units (m : Magnitude) : Magnitude.ofRatio? m.units 1 = some m := by
  have hround := roundUnits_of_dvd m.gap_dvd
  have hlt : roundUnits m.units 1 < unitsLimit := hround.symm ▸ m.units_lt
  unfold Magnitude.ofRatio?
  split
  · exact congrArg some (Magnitude.ext hround)
  · next h => exact absurd hlt h

theorem ofRatio_units (negative : Bool) (m : Magnitude) :
    Binary64.ofRatio negative m.units 1 = .finite negative m := by
  unfold Binary64.ofRatio
  rw [ofRatio?_units]

theorem length_natChars_pos (n : Nat) : 0 < (natChars n).length := Nat.length_toDigits_pos

theorem pow_le_of_lt_length {n k : Nat} (hn : n ≠ 0) (h : k < (natChars n).length) : 10 ^ k ≤ n := by
  cases k with
  | zero => omega
  | succ k =>
    have hlength := length_natChars_le (n := n) (Nat.succ_pos k)
    omega

theorem pow_le_of_lt_length_add {n k e : Nat} (hn : n ≠ 0) (h : k < (natChars n).length + e) :
    10 ^ k ≤ n * 10 ^ e := by
  have hpos := length_natChars_pos n
  have hdigits : 10 ^ ((natChars n).length - 1) ≤ n := pow_le_of_lt_length hn (by omega)
  calc
    10 ^ k ≤ 10 ^ ((natChars n).length - 1 + e) := Nat.pow_le_pow_right (by decide) (by omega)
    _ = 10 ^ ((natChars n).length - 1) * 10 ^ e := Nat.pow_add _ _ _
    _ ≤ n * 10 ^ e := Nat.mul_le_mul_right _ hdigits

theorem unitsLimit_le : unitsLimit ≤ 10 ^ 400 * unitsPerOne := by decide +kernel

theorem leading_le {d : Decimal} {m : Magnitude} (h : d.digits ≠ 0) (he : 0 ≤ d.exponent)
    (hm : m.units = d.digits * 10 ^ d.exponent.toNat * unitsPerOne) : d.leading ≤ 400 := by
  by_contra hlarge
  have hleading : d.leading = (natChars d.digits).length + d.exponent := rfl
  have hlong : 400 < (natChars d.digits).length + d.exponent.toNat := by omega
  have hunits : 10 ^ 400 * unitsPerOne ≤ m.units := by
    rw [hm]
    exact Nat.mul_le_mul_right _ (pow_le_of_lt_length_add h hlong)
  exact absurd m.units_lt (Nat.not_lt_of_le (unitsLimit_le.trans hunits))

/-- A decimal that is a number of units is read as this number. -/
theorem toBinary64_of_units {d : Decimal} {m : Magnitude} (he : 0 ≤ d.exponent)
    (hm : m.units = d.digits * 10 ^ d.exponent.toNat * unitsPerOne) :
    d.toBinary64 = .finite d.negative m := by
  have hratio : Binary64.ofRatio d.negative d.numerator d.denominator = .finite d.negative m := by
    have hnumerator : d.numerator = m.units := hm.symm
    have hdenominator : d.denominator = 1 := by
      have hzero : (-d.exponent).toNat = 0 := by omega
      rw [Decimal.denominator, hzero]
    rw [hnumerator, hdenominator, ofRatio_units]
  have hleading : ¬ d.leading < -400 := by
    have : d.leading = (natChars d.digits).length + d.exponent := rfl
    omega
  rw [Decimal.toBinary64]
  split
  · next hzero =>
    have hempty : m = .empty := Magnitude.ext (by
      rw [hm, hzero.resolve_right hleading, Nat.zero_mul, Nat.zero_mul]
      rfl)
    rw [hempty]
  · next hzero =>
    have hdigits : d.digits ≠ 0 := fun h => hzero (.inl h)
    rw [if_neg (by have := leading_le hdigits he hm; omega), hratio]

theorem two_pow_mul_unitsPerOne (s : Nat) : 2 ^ s * unitsPerOne = 2 ^ (s + 1074) := by
  unfold unitsPerOne
  generalize 1074 = n
  exact (Nat.pow_add 2 s n).symm

theorem unitsLimit_eq : unitsLimit = 2 ^ unitsWidth := by
  unfold unitsLimit
  generalize unitsWidth = n
  rfl

theorem exists_magnitude {t s : Nat} (ht : t ≤ 2 ^ 53) (hs : s ≤ 1) :
    ∃ m : Magnitude, m.units = t * 2 ^ s * unitsPerOne := by
  have hwidth : 53 + (s + 1074) < unitsWidth := by
    unfold unitsWidth
    omega
  have hlt : t * Nat.pow 2 (s + 1074) < unitsLimit := by
    rw [unitsLimit_eq]
    calc
      t * 2 ^ (s + 1074) ≤ 2 ^ 53 * 2 ^ (s + 1074) := Nat.mul_le_mul_right _ ht
      _ = 2 ^ (53 + (s + 1074)) := (Nat.pow_add _ _ _).symm
      _ < 2 ^ unitsWidth := Nat.pow_lt_pow_right (by decide) hwidth
  refine ⟨⟨_, hlt, gap_dvd_mul ht⟩, ?_⟩
  rw [Nat.mul_assoc, two_pow_mul_unitsPerOne]
  rfl

theorem dvd_units {m : Magnitude} {gap e : Nat} (hgap : gap = 2 ^ e) (h : 2 ^ 52 * gap ≤ m.units) :
    gap ∣ m.units := by
  subst hgap
  rw [← Nat.pow_add] at h
  have hne : m.units ≠ 0 := by
    have := Nat.two_pow_pos (52 + e)
    omega
  have hlog := (Nat.le_log2 hne).2 h
  have hle : e ≤ gapExponent m.units := by
    unfold gapExponent
    omega
  exact (Nat.pow_dvd_pow 2 hle).trans m.gap_dvd

end MessageCatalog.Number
