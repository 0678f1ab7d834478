import MessageCatalog.Proofs.ShortestDecimals

/-!
# Floats without an exponent

A float is written without an exponent if it is zero or from `0.0001` up to below `10 ^ 16`. Its
text is decided by the shortest decimal and not by the number, but no number just below one of the
two bounds is written as the bound.
-/
namespace MessageCatalog.Number

variable {m : Magnitude} {e : Int} {below : Nat}

theorem leading_lt_sixteen (h : m.units ≠ 0) :
    leadingExponent m < 16 ↔ m.units < 10 ^ 16 * unitsPerOne := by
  have hunits : (scaled m 16).1 = m.units := Nat.mul_one _
  have hpower : (scaled m 16).2 = 10 ^ 16 * unitsPerOne := Nat.mul_comm _ _
  rw [leading_lt_iff h, hunits, hpower]

theorem leading_lt_minus_four (h : m.units ≠ 0) :
    leadingExponent m < -4 ↔ m.units * 10 ^ 4 < unitsPerOne := by
  have hunits : (scaled m (-4)).1 = m.units * 10 ^ 4 := rfl
  have hpower : (scaled m (-4)).2 = unitsPerOne := Nat.mul_one _
  rw [leading_lt_iff h, hunits, hpower]

theorem toBinary64_of_readsBack {digits : Nat} (h : readsBack m digits e = true) :
    (⟨false, digits, e⟩ : Decimal).toBinary64 = .finite false m :=
  eq_of_beq h

def readsAtLeast (low scale : Nat) (d : Decimal) : Bool :=
  match d.toBinary64 with
  | .finite _ m => low ≤ m.units * scale
  | _ => false

theorem le_of_readsAtLeast {low scale digits : Nat}
    (h : readsAtLeast low scale ⟨false, digits, e⟩ = true) (hback : readsBack m digits e = true) :
    low ≤ m.units * scale := by
  rw [readsAtLeast, toBinary64_of_readsBack hback] at h
  exact of_decide_eq_true h

theorem bounds_read : ∀ below : Nat, below < 16 →
    readsAtLeast (10 ^ 16 * unitsPerOne) 1 ⟨false, 10 ^ (below + 1), 15 - below⟩ = true ∧
      readsAtLeast unitsPerOne (10 ^ 4) ⟨false, 10 ^ (below + 1), -5 - below⟩ = true := by
  decide +kernel

theorem divRoundEven_upper (h : m.units < 10 ^ 16 * unitsPerOne) :
    divRoundEven (scaled m (-1)).1 (scaled m (-1)).2 ≠ 10 ^ 17 := by
  intro hup
  have hround := two_mul_divRoundEven_le (scaled m (-1)).1 (scaled m (-1)).2
  have hnumerator : (scaled m (-1)).1 = m.units * 10 := rfl
  have hdenominator : (scaled m (-1)).2 = unitsPerOne := Nat.mul_one _
  rw [hup, hnumerator, hdenominator] at hround
  have hgap : 2 ^ 1 * unitsPerOne ∣ m.units :=
    dvd_units (two_pow_mul_unitsPerOne 1) (by omega)
  obtain ⟨t, ht⟩ := hgap
  have hlast : t + 1 ≤ 5 * 10 ^ 15 := by
    refine Nat.lt_of_mul_lt_mul_left (a := 2 ^ 1 * unitsPerOne) ?_
    omega
  have hmul := Nat.mul_le_mul_left (2 ^ 1 * unitsPerOne) hlast
  have hpos := unitsPerOne_pos
  rw [Nat.mul_add, ← ht] at hmul
  omega

theorem exists_unitsPerOne_eq : ∃ e, unitsPerOne = 2 ^ 66 * 2 ^ e := ⟨1008, by decide +kernel⟩

theorem divRoundEven_lower (h : m.units * 10 ^ 4 < unitsPerOne) :
    divRoundEven (scaled m (-21)).1 (scaled m (-21)).2 ≠ 10 ^ 17 := by
  intro hup
  have hround := two_mul_divRoundEven_le (scaled m (-21)).1 (scaled m (-21)).2
  have hnumerator : (scaled m (-21)).1 = m.units * 10 ^ 21 := rfl
  have hdenominator : (scaled m (-21)).2 = unitsPerOne := Nat.mul_one _
  rw [hup, hnumerator, hdenominator] at hround
  obtain ⟨e, hone⟩ := exists_unitsPerOne_eq
  generalize hgap : 2 ^ e = gap at hone
  rw [hone] at h hround
  obtain ⟨t, ht⟩ : gap ∣ m.units := dvd_units hgap.symm (by omega)
  have hlast : t ≤ 2 ^ 66 / 10 ^ 4 := by
    refine Nat.le_of_lt_succ (Nat.lt_of_mul_lt_mul_left (a := gap) ?_)
    omega
  have hmul := Nat.mul_le_mul_left gap hlast
  rw [← ht] at hmul
  omega

theorem not_beside_power {lead : Int} (hlead : leadingExponent m = lead)
    (hread : ∀ below : Nat, below < 16 → ¬ readsBack m (10 ^ (below + 1)) (lead - below) = true)
    (hround : divRoundEven (scaled m (lead - 16)).1 (scaled m (lead - 16)).2 ≠ 10 ^ 17) :
    ¬ Beside m (10 ^ (below + 1)) e below := by
  intro hbeside
  have hplace := hbeside.place
  obtain rfl : e = lead - below := by omega
  obtain ⟨hbelow, hback⟩ | ⟨rfl, hdigits⟩ := hbeside.near
  · exact hread below hbelow hback
  · exact hround hdigits.symm

theorem not_beside_upper (h : m.units < 10 ^ 16 * unitsPerOne) (hlead : leadingExponent m = 15) :
    ¬ Beside m (10 ^ (below + 1)) e below := by
  refine not_beside_power hlead (fun below hbelow hback => ?_) (divRoundEven_upper h)
  have hle := le_of_readsAtLeast (bounds_read below hbelow).1 hback
  rw [Nat.mul_one] at hle
  exact Nat.not_le_of_lt h hle

theorem not_beside_lower (h : m.units * 10 ^ 4 < unitsPerOne) (hlead : leadingExponent m = -5) :
    ¬ Beside m (10 ^ (below + 1)) e below := by
  refine not_beside_power hlead (fun below hbelow hback => ?_) (divRoundEven_lower h)
  exact Nat.not_le_of_lt h (le_of_readsAtLeast (bounds_read below hbelow).2 hback)

def IsPositional (m : Magnitude) : Prop :=
  m.units = 0 ∨ unitsPerOne ≤ m.units * 10 ^ 4 ∧ m.units < 10 ^ 16 * unitsPerOne

instance (m : Magnitude) : Decidable (IsPositional m) :=
  inferInstanceAs (Decidable (m.units = 0 ∨
    unitsPerOne ≤ m.units * 10 ^ 4 ∧ m.units < 10 ^ 16 * unitsPerOne))

theorem isPositional_iff (m : Magnitude) : IsPositional m ↔ -4 < pointOf m ∧ pointOf m ≤ 16 := by
  by_cases h : m.units = 0
  · have hpoint : pointOf m = 1 := by
      have hshortest : shortest m = (0, 0) := by
        rw [shortest, if_pos h]
      rw [pointOf, hshortest]
      rfl
    simp [IsPositional, h, hpoint]
  · have hupper := leading_lt_sixteen h
    have hlower := leading_lt_minus_four h
    have hpositional : IsPositional m ↔ -4 ≤ leadingExponent m ∧ leadingExponent m < 16 := by
      rw [IsPositional, hupper, ← Int.not_lt, hlower, Nat.not_lt]
      exact or_iff_right h
    rw [hpositional]
    obtain hpoint | ⟨hpoint, e, below, hbeside⟩ := pointOf_cases h
    · omega
    · have hnotUpper : leadingExponent m ≠ 15 := fun hlead =>
        not_beside_upper (hupper.1 (by omega)) hlead hbeside
      have hnotLower : leadingExponent m ≠ -5 := fun hlead =>
        not_beside_lower (hlower.1 (by omega)) hlead hbeside
      omega

section Integers
variable {k : Nat} (hk : m.units = k * unitsPerOne)
include hk

theorem onGrid_zero : onGrid? m 0 = some k := by
  have hscaled : scaled m 0 = (k * unitsPerOne, unitsPerOne) :=
    Prod.ext ((Nat.mul_one _).trans hk) (Nat.mul_one _)
  have hback : readsBack m k 0 = true := by
    have hunits : m.units = k * 10 ^ (0 : Int).toNat * unitsPerOne := by simpa using hk
    have hread := toBinary64_of_units (d := ⟨false, k, 0⟩) (Int.le_refl 0) hunits
    rw [readsBack, hread]
    exact beq_self_eq_true _
  simp only [onGrid?, hscaled, divRoundEven_mul k unitsPerOne_pos, hback, if_true]

theorem eq_of_readsBack {digits f : Nat} (hf : f ≠ 0) (hle : digits * 10 ^ f ≤ 10 ^ 16)
    (h : readsBack m digits f = true) : digits * 10 ^ f = k := by
  obtain ⟨s, rfl⟩ : ∃ s, f = s + 1 := ⟨f - 1, by omega⟩
  have htwice : digits * 10 ^ (s + 1) = digits * 10 ^ s * 5 * 2 ^ 1 := by ring
  rw [htwice] at hle ⊢
  obtain ⟨m', hm'⟩ := exists_magnitude (t := digits * 10 ^ s * 5) (s := 1) (by omega) (by decide)
  have hread := toBinary64_of_units (d := ⟨false, digits, (s + 1 : Nat)⟩) (m := m')
    (Int.natCast_nonneg _) (by simpa [htwice] using hm')
  rw [toBinary64_of_readsBack h] at hread
  cases hread
  rw [hk] at hm'
  exact (Nat.eq_of_mul_eq_mul_right unitsPerOne_pos hm').symm

theorem shortestFrom_integer (hne : m.units ≠ 0) (hlead : leadingExponent m < 16)
    {rounds count : Nat} (hcount : 0 < count) (hlast : count + rounds = 17)
    (hplace : count ≤ leadingExponent m + 1) :
    ∃ f : Nat, (shortestFrom m (leadingExponent m) rounds count).2 = f ∧
      (shortestFrom m (leadingExponent m) rounds count).1 * 10 ^ f = k := by
  induction rounds generalizing count with
  | zero => omega
  | succ rounds ih =>
    obtain ⟨f, hf⟩ : ∃ f : Nat, leadingExponent m - count + 1 = f :=
      ⟨(leadingExponent m - count + 1).toNat, by omega⟩
    rw [shortestFrom]
    simp only [hf]
    by_cases hzero : f = 0
    · subst hzero
      have hgrid : onGrid? m (0 : Nat) = some k := onGrid_zero hk
      rw [hgrid]
      exact ⟨0, rfl, Nat.mul_one k⟩
    · split
      · next digits hgrid =>
        obtain ⟨hback, hdigits⟩ := exists_of_onGrid hgrid
        refine ⟨f, rfl, eq_of_readsBack hk hzero ?_ hback⟩
        have hbounds := scaled_div_bounds hne (j := count - 1) (e := f) (by omega)
        rw [Nat.sub_add_cancel hcount] at hbounds
        calc
          digits * 10 ^ f ≤ 10 ^ count * 10 ^ f := Nat.mul_le_mul_right _ (by
            generalize (scaled m f).1 / (scaled m f).2 = quotient at *
            omega)
          _ = 10 ^ (count + f) := (Nat.pow_add _ _ _).symm
          _ ≤ 10 ^ 16 := Nat.pow_le_pow_right (by decide) (by omega)
      · exact ih (Nat.succ_pos count) (by omega) (by omega)

theorem shortest_integer (hlt : k < 10 ^ 16) :
    ∃ zeros : Nat, (shortest m).2 = zeros ∧
      natChars k = natChars (shortest m).1 ++ List.replicate zeros '0' := by
  by_cases hne : m.units = 0
  · have hshortest : shortest m = (0, 0) := by
      rw [shortest, if_pos hne]
    have hzero : k = 0 := by
      rw [hne] at hk
      exact (Nat.mul_eq_zero.1 hk.symm).resolve_right unitsPerOne_pos.ne'
    rw [hshortest, hzero]
    exact ⟨0, rfl, (List.append_nil _).symm⟩
  · have hpos : 0 < k := Nat.pos_of_ne_zero fun hzero => hne (by rw [hk, hzero, Nat.zero_mul])
    have hlead : leadingExponent m < 16 :=
      (leading_lt_sixteen hne).2 (hk ▸ Nat.mul_lt_mul_of_pos_right hlt unitsPerOne_pos)
    have hone : ¬ leadingExponent m < 0 := by
      have hunits : (scaled m 0).1 = k * unitsPerOne := (Nat.mul_one _).trans hk
      have hpower : (scaled m 0).2 = unitsPerOne := Nat.mul_one _
      rw [leading_lt_iff hne, hunits, hpower]
      exact Nat.not_lt_of_le (Nat.le_mul_of_pos_left _ hpos)
    obtain ⟨f, hf, hexact⟩ := shortestFrom_integer hk hne hlead (by decide : 0 < 1)
      (by decide : 1 + 16 = 17) (by omega)
    generalize hfound : shortestFrom m (leadingExponent m) 16 1 = found at *
    obtain ⟨zeros, hplace, hdigits⟩ := exists_dropZeros 20 found.1 found.2
    rw [← shortest_of_found hne hfound] at hplace hdigits
    have hvalue : k = (shortest m).1 * 10 ^ (zeros + f) := by
      rw [Nat.pow_add, ← Nat.mul_assoc, ← hdigits, hexact]
    have hdigit : (shortest m).1 ≠ 0 := fun hzero => by
      rw [hzero, Nat.zero_mul] at hvalue
      omega
    refine ⟨zeros + f, by omega, ?_⟩
    rw [← natChars_mul_pow hdigit, ← hvalue]

theorem isPositional_integer (hlt : k < 10 ^ 16) : IsPositional m := by
  by_cases hzero : k = 0
  · exact .inl (by rw [hk, hzero, Nat.zero_mul])
  · refine .inr ⟨?_, hk ▸ Nat.mul_lt_mul_of_pos_right hlt unitsPerOne_pos⟩
    rw [hk, Nat.mul_right_comm]
    exact Nat.le_mul_of_pos_left _ (by omega)

theorem lt_of_isPositional (h : IsPositional m) : k < 10 ^ 16 := by
  refine Nat.lt_of_mul_lt_mul_right (a := unitsPerOne) ?_
  rw [← hk]
  obtain hzero | ⟨-, hlt⟩ := h
  · rw [hzero]
    exact Nat.mul_pos (by decide) unitsPerOne_pos
  · exact hlt

/-- An integer below `10 ^ 16` is written by its digits, with a zero after the point. -/
theorem magnitudeChars_integer (hlt : k < 10 ^ 16) :
    magnitudeChars m = natChars k ++ ['.', '0'] := by
  have hpoint := (isPositional_iff m).1 (isPositional_integer hk hlt)
  obtain ⟨zeros, hplace, hdigits⟩ := shortest_integer hk hlt
  have hlength := length_natChars_pos (shortest m).1
  rw [pointOf, hplace] at hpoint
  have hwhole : ((natChars (shortest m).1).length + zeros : Int).toNat -
      (natChars (shortest m).1).length = zeros := by omega
  simp only [magnitudeChars, hplace]
  rw [if_pos hpoint, positional, if_neg (by omega), if_pos (by omega), hwhole, hdigits]

end Integers

end MessageCatalog.Number
