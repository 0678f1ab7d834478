import Mathlib.Tactic.Ring
import MessageCatalog.Proofs.ExactRounding

/-!
# Shortest decimals

The shortest decimal of a number has its leading digit where the number has it, or is the next power
of ten.
-/
namespace MessageCatalog.Number

variable {m : Magnitude}

theorem length_natChars_div {n d : Nat} (hd : 0 < d) (h : d ≤ n) :
    10 ^ ((natChars (n / d)).length - 1) * d ≤ n ∧ n < 10 ^ (natChars (n / d)).length * d := by
  have hlength := length_natChars_pos (n / d)
  have hlow : 10 ^ ((natChars (n / d)).length - 1) ≤ n / d :=
    pow_le_of_lt_length (Nat.div_pos h hd).ne' (by omega)
  have hhigh : n / d < 10 ^ (natChars (n / d)).length :=
    (length_natChars_le hlength).1 (Nat.le_refl _)
  exact ⟨(Nat.le_div_iff_mul_le hd).1 hlow, (Nat.div_lt_iff_lt_mul hd).1 hhigh⟩

theorem unitsPerOne_le : unitsPerOne ≤ 10 ^ 324 := by decide +kernel

theorem exists_leading (h : m.units ≠ 0) :
    ∃ n : Nat, leadingExponent m + 324 = n ∧ 10 ^ n * unitsPerOne ≤ m.units * 10 ^ 324 ∧
      m.units * 10 ^ 324 < 10 ^ (n + 1) * unitsPerOne := by
  have hle : unitsPerOne ≤ m.units * 10 ^ 324 :=
    unitsPerOne_le.trans (Nat.le_mul_of_pos_left _ (Nat.pos_of_ne_zero h))
  have hleading : leadingExponent m =
      (natChars (m.units * 10 ^ 324 / unitsPerOne)).length - 325 := by
    unfold leadingExponent
    generalize 324 = places
    rfl
  have hlength := length_natChars_pos (m.units * 10 ^ 324 / unitsPerOne)
  have hbounds := length_natChars_div unitsPerOne_pos hle
  generalize (natChars (m.units * 10 ^ 324 / unitsPerOne)).length = length at *
  have hplace : leadingExponent m + 324 = (length - 1 : Nat) := by
    clear hle hbounds
    omega
  refine ⟨length - 1, hplace, hbounds.1, ?_⟩
  rw [Nat.sub_add_cancel hlength]
  exact hbounds.2

theorem pow_mul_le_iff {n f j a s u v : Nat} (h : n + f = j + a + s) :
    10 ^ n * u ≤ v * 10 ^ s ↔ 10 ^ j * (u * 10 ^ a) ≤ v * 10 ^ f := by
  have hf : 0 < 10 ^ f := Nat.pow_pos (by decide)
  have hs : 0 < 10 ^ s := Nat.pow_pos (by decide)
  have hleft : 10 ^ n * u * 10 ^ f = 10 ^ j * (u * 10 ^ a) * 10 ^ s := by
    have hpow : 10 ^ n * 10 ^ f = 10 ^ j * 10 ^ a * 10 ^ s := by
      rw [← Nat.pow_add, ← Nat.pow_add, ← Nat.pow_add, h]
    calc
      10 ^ n * u * 10 ^ f = 10 ^ n * 10 ^ f * u := by ring
      _ = 10 ^ j * (u * 10 ^ a) * 10 ^ s := by rw [hpow]; ring
  calc
    10 ^ n * u ≤ v * 10 ^ s ↔ 10 ^ n * u * 10 ^ f ≤ v * 10 ^ s * 10 ^ f :=
      (Nat.mul_le_mul_right_iff hf).symm
    _ ↔ 10 ^ j * (u * 10 ^ a) * 10 ^ s ≤ v * 10 ^ f * 10 ^ s := by
      rw [hleft, Nat.mul_right_comm v]
    _ ↔ 10 ^ j * (u * 10 ^ a) ≤ v * 10 ^ f := Nat.mul_le_mul_right_iff hs

theorem scaled_bounds (h : m.units ≠ 0) {e : Int} {j : Nat} (hj : e + j = leadingExponent m) :
    10 ^ j * (scaled m e).2 ≤ (scaled m e).1 ∧
      (scaled m e).1 < 10 ^ (j + 1) * (scaled m e).2 := by
  obtain ⟨n, hn, hlow, hhigh⟩ := exists_leading h
  have hplace : n + (-e).toNat = j + e.toNat + 324 := by omega
  have hnext : n + 1 + (-e).toNat = j + 1 + e.toNat + 324 := by omega
  exact ⟨(pow_mul_le_iff hplace).1 hlow,
    Nat.lt_of_not_le fun hle => Nat.not_le_of_lt hhigh ((pow_mul_le_iff hnext).2 hle)⟩

theorem scaled_pos (m : Magnitude) (e : Int) : 0 < (scaled m e).2 :=
  Nat.mul_pos unitsPerOne_pos (Nat.pow_pos (by decide))

theorem scaled_div_bounds (h : m.units ≠ 0) {e : Int} {j : Nat}
    (hj : e + j = leadingExponent m) :
    10 ^ j ≤ (scaled m e).1 / (scaled m e).2 ∧
      (scaled m e).1 / (scaled m e).2 < 10 ^ (j + 1) := by
  obtain ⟨hlow, hhigh⟩ := scaled_bounds h hj
  exact ⟨(Nat.le_div_iff_mul_le (scaled_pos m e)).2 hlow,
    (Nat.div_lt_iff_lt_mul (scaled_pos m e)).2 hhigh⟩

theorem leading_lt_iff (h : m.units ≠ 0) {e : Int} :
    leadingExponent m < e ↔ (scaled m e).1 < (scaled m e).2 := by
  constructor
  · intro hlt
    obtain ⟨n, hn, -, hhigh⟩ := exists_leading h
    have hplace : (e + 324).toNat + (-e).toNat = 0 + e.toNat + 324 := by omega
    have hpow : 10 ^ (n + 1) * unitsPerOne ≤ 10 ^ (e + 324).toNat * unitsPerOne :=
      Nat.mul_le_mul_right _ (Nat.pow_le_pow_right (by decide) (by omega))
    have hnot : ¬ 10 ^ (e + 324).toNat * unitsPerOne ≤ m.units * 10 ^ 324 :=
      Nat.not_le_of_lt (Nat.lt_of_lt_of_le hhigh hpow)
    rw [pow_mul_le_iff hplace, Nat.pow_zero, Nat.one_mul] at hnot
    exact Nat.lt_of_not_le hnot
  · intro hlt
    by_contra hle
    have hj : e + (leadingExponent m - e).toNat = leadingExponent m := by omega
    have hlow := (scaled_bounds h hj).1
    have hone : (scaled m e).2 ≤ 10 ^ (leadingExponent m - e).toNat * (scaled m e).2 :=
      Nat.le_mul_of_pos_left _ (Nat.pow_pos (by decide))
    exact Nat.not_lt_of_le (hone.trans hlow) hlt

/-- The digits of a number at a place, one more than `below`, rounded up or down. They read back, or
are the last resort of seventeen digits. -/
structure Beside (m : Magnitude) (digits : Nat) (e : Int) (below : Nat) : Prop where
  place : e + below = leadingExponent m
  low : 10 ^ below ≤ digits
  high : digits ≤ 10 ^ (below + 1)
  near : below < 16 ∧ readsBack m digits e = true ∨
    below = 16 ∧ digits = divRoundEven (scaled m e).1 (scaled m e).2

theorem exists_of_onGrid {e : Int} {digits : Nat} (h : onGrid? m e = some digits) :
    readsBack m digits e = true ∧ (digits = (scaled m e).1 / (scaled m e).2 ∨
      digits = (scaled m e).1 / (scaled m e).2 + 1) := by
  unfold onGrid? at h
  generalize scaled m e = ratio at *
  obtain ⟨n, d⟩ := ratio
  have hround := divRoundEven_cases n d
  dsimp only at h
  generalize divRoundEven n d = nearest at *
  by_cases hnear : readsBack m nearest e = true
  · rw [if_pos hnear] at h
    cases h
    exact ⟨hnear, hround⟩
  · rw [if_neg hnear, Option.ite_none_right_eq_some] at h
    obtain ⟨hother, hdigits⟩ := h
    cases hdigits
    refine ⟨hother, ?_⟩
    split
    · exact .inr rfl
    · exact .inl rfl

theorem beside_of_cases (h : m.units ≠ 0) {e : Int} {digits below : Nat}
    (hplace : e + below = leadingExponent m)
    (hdigits : digits = (scaled m e).1 / (scaled m e).2 ∨
      digits = (scaled m e).1 / (scaled m e).2 + 1)
    (hnear : below < 16 ∧ readsBack m digits e = true ∨
      below = 16 ∧ digits = divRoundEven (scaled m e).1 (scaled m e).2) :
    Beside m digits e below := by
  obtain ⟨hlow, hhigh⟩ := scaled_div_bounds h hplace
  refine ⟨hplace, ?_, ?_, hnear⟩
  all_goals
    generalize (scaled m e).1 / (scaled m e).2 = quotient at *
    omega

theorem beside_shortestFrom (h : m.units ≠ 0) {rounds count : Nat} (hcount : 0 < count)
    (hlast : count + rounds = 17) :
    ∃ below, Beside m (shortestFrom m (leadingExponent m) rounds count).1
      (shortestFrom m (leadingExponent m) rounds count).2 below := by
  have hplace : ∀ count : Nat, 0 < count →
      leadingExponent m - count + 1 + (count - 1 : Nat) = leadingExponent m := by omega
  induction rounds generalizing count with
  | zero =>
    refine ⟨count - 1, beside_of_cases h (hplace count hcount) ?_ (.inr ⟨by omega, ?_⟩)⟩
    · exact divRoundEven_cases _ _
    · rw [shortestFrom]
  | succ rounds ih =>
    rw [shortestFrom]
    split
    · next digits hgrid =>
      obtain ⟨hback, hdigits⟩ := exists_of_onGrid hgrid
      exact ⟨count - 1, beside_of_cases h (hplace count hcount) hdigits (.inl ⟨by omega, hback⟩)⟩
    · exact ih (Nat.succ_pos count) (by omega)

theorem exists_dropZeros (fuel digits : Nat) (e : Int) :
    ∃ zeros : Nat, (dropZeros fuel digits e).2 = e + zeros ∧
      digits = (dropZeros fuel digits e).1 * 10 ^ zeros := by
  induction fuel generalizing digits e with
  | zero => exact ⟨0, by simp [dropZeros], by simp [dropZeros]⟩
  | succ fuel ih =>
    rw [dropZeros]
    split
    · obtain ⟨zeros, hplace, hdigits⟩ := ih (digits / 10) (e + 1)
      refine ⟨zeros + 1, by omega, ?_⟩
      rw [Nat.pow_succ, ← Nat.mul_assoc, ← hdigits]
      omega
    · exact ⟨0, by simp, by simp⟩

theorem natChars_mul_ten {n : Nat} (h : n ≠ 0) : natChars (n * 10) = natChars n ++ ['0'] := by
  have hdigits := Nat.toDigits_of_base_le (by decide : 1 < 10) (by omega : 10 ≤ n * 10)
  rwa [Nat.mul_div_cancel n (by decide), Nat.mul_mod_left] at hdigits

theorem natChars_mul_pow {n : Nat} (h : n ≠ 0) (zeros : Nat) :
    natChars (n * 10 ^ zeros) = natChars n ++ List.replicate zeros '0' := by
  induction zeros with
  | zero => simp
  | succ zeros ih =>
    have hne : n * 10 ^ zeros ≠ 0 := Nat.mul_ne_zero h (Nat.pow_pos (by decide)).ne'
    rw [Nat.pow_succ, ← Nat.mul_assoc, natChars_mul_ten hne, ih, List.append_assoc,
      List.replicate_succ']

theorem length_natChars_eq {n k : Nat} (hlow : 10 ^ k ≤ n) (hhigh : n < 10 ^ (k + 1)) :
    (natChars n).length = k + 1 := by
  have hle : (natChars n).length ≤ k + 1 := (length_natChars_le (Nat.succ_pos k)).2 hhigh
  by_contra hne
  by_cases hk : k = 0
  · have := length_natChars_pos n
    omega
  · have hlt : n < 10 ^ k := (length_natChars_le (Nat.pos_of_ne_zero hk)).1 (by omega)
    exact Nat.not_lt_of_le hlow hlt

def pointOf (m : Magnitude) : Int := (natChars (shortest m).1).length + (shortest m).2

theorem shortest_of_found (h : m.units ≠ 0) {found : Nat × Int}
    (hfound : shortestFrom m (leadingExponent m) 16 1 = found) :
    shortest m = dropZeros 20 found.1 found.2 := by
  unfold shortest
  rw [if_neg h, hfound]

theorem exists_shortest (h : m.units ≠ 0) :
    ∃ digits e below, Beside m digits e below ∧ pointOf m = (natChars digits).length + e := by
  obtain ⟨below, hbeside⟩ := beside_shortestFrom h (by decide : 0 < 1) (by decide : 1 + 16 = 17)
  generalize hfound : shortestFrom m (leadingExponent m) 16 1 = found at *
  have hshortest := shortest_of_found h hfound
  obtain ⟨zeros, hplace, hdigits⟩ := exists_dropZeros 20 found.1 found.2
  rw [← hshortest] at hplace hdigits
  have hpos : 0 < found.1 := Nat.lt_of_lt_of_le (Nat.pow_pos (by decide)) hbeside.low
  have hne : (shortest m).1 ≠ 0 := fun hzero => by
    rw [hzero, Nat.zero_mul] at hdigits
    omega
  refine ⟨found.1, found.2, below, hbeside, ?_⟩
  rw [pointOf, hplace, hdigits, natChars_mul_pow hne, List.length_append, List.length_replicate]
  omega

theorem pointOf_cases (h : m.units ≠ 0) :
    pointOf m = leadingExponent m + 1 ∨
      pointOf m = leadingExponent m + 2 ∧ ∃ e below, Beside m (10 ^ (below + 1)) e below := by
  obtain ⟨digits, e, below, hbeside, hpoint⟩ := exists_shortest h
  have hplace := hbeside.place
  by_cases hhigh : digits < 10 ^ (below + 1)
  · have := length_natChars_eq hbeside.low hhigh
    exact .inl (by omega)
  · have hdigits : digits = 10 ^ (below + 1) := Nat.le_antisymm hbeside.high (Nat.le_of_not_lt hhigh)
    have hlength : (natChars digits).length = below + 2 := by
      refine length_natChars_eq (Nat.le_of_not_lt hhigh) ?_
      rw [hdigits]
      exact Nat.pow_lt_pow_right (by decide) (by omega)
    exact .inr ⟨by omega, e, below, hdigits ▸ hbeside⟩

end MessageCatalog.Number
