/-!
# Binary floating point numbers

A number is a sign and a magnitude, an infinity, or no number at all. A magnitude is counted in
units of `2 ^ -1074`, the smallest positive one, so every finite number is a whole number of units
and all questions about it are questions about natural numbers. A magnitude keeps 53 binary
digits: from `2 ^ 53` units on, neighbours are a power of two apart.
-/
namespace MessageCatalog.Number

/-- Units in the number one. -/
@[irreducible]
def unitsPerOne : Nat := Nat.pow 2 1074

def unitsWidth : Nat := 2098

def unitsLimit : Nat := Nat.pow 2 unitsWidth

theorem unitsLimit_pos : 0 < unitsLimit := by
  unfold unitsLimit
  generalize unitsWidth = n
  exact Nat.two_pow_pos n

def gapExponent (units : Nat) : Nat := Nat.log2 units - 52

structure Magnitude where
  units : Nat
  units_lt : units < unitsLimit
  gap_dvd : Nat.pow 2 (gapExponent units) ∣ units
deriving DecidableEq

def Magnitude.empty : Magnitude := ⟨0, unitsLimit_pos, Nat.dvd_zero _⟩

inductive Binary64 where
  | nan
  | infinite (negative : Bool)
  | finite (negative : Bool) (magnitude : Magnitude)
deriving DecidableEq

/-- The integer nearest to `n / d`; a half goes to the even neighbour. -/
def divRoundEven (n d : Nat) : Nat :=
  let q := n / d
  let r := n % d
  if 2 * r < d then q else if d < 2 * r then q + 1 else q + q % 2

/-- The number of units nearest to `n / d` among those that 53 binary digits can hold. -/
def roundUnits (n d : Nat) : Nat :=
  let e := gapExponent (n / d)
  divRoundEven n (d * Nat.pow 2 e) * Nat.pow 2 e

theorem divRoundEven_le (n d : Nat) : divRoundEven n d ≤ n / d + 1 := by
  simp only [divRoundEven]
  have h := Nat.mod_lt (n / d) (by decide : 0 < 2)
  split
  · omega
  · split <;> omega

theorem div_gap_lt (n : Nat) : n / Nat.pow 2 (gapExponent n) < Nat.pow 2 53 := by
  change n / 2 ^ gapExponent n < 2 ^ 53
  rw [Nat.div_lt_iff_lt_mul (Nat.two_pow_pos _), ← Nat.pow_add]
  have h := Nat.lt_log2_self (n := n)
  refine Nat.lt_of_lt_of_le h (Nat.pow_le_pow_right (by decide) ?_)
  simp only [gapExponent]
  omega

theorem gap_dvd_mul {m e : Nat} (h : m ≤ Nat.pow 2 53) :
    Nat.pow 2 (gapExponent (m * Nat.pow 2 e)) ∣ m * Nat.pow 2 e := by
  change m ≤ 2 ^ 53 at h
  change 2 ^ gapExponent (m * 2 ^ e) ∣ m * 2 ^ e
  by_cases hm : m = 2 ^ 53
  · subst hm
    rw [← Nat.pow_add]
    refine Nat.pow_dvd_pow 2 ?_
    simp only [gapExponent, Nat.log2_two_pow]
    omega
  · by_cases h0 : m = 0
    · simp [h0]
    · have hlt : m * 2 ^ e < 2 ^ (53 + e) := by
        rw [Nat.pow_add]
        exact Nat.mul_lt_mul_of_pos_right (by omega) (Nat.two_pow_pos e)
      have hne : m * 2 ^ e ≠ 0 := Nat.mul_ne_zero h0 (Nat.ne_of_gt (Nat.two_pow_pos e))
      have hlog : Nat.log2 (m * 2 ^ e) < 53 + e := (Nat.log2_lt hne).mpr hlt
      have hle : gapExponent (m * 2 ^ e) ≤ e := by
        simp only [gapExponent]
        omega
      exact Nat.dvd_trans (Nat.pow_dvd_pow 2 hle) (Nat.dvd_mul_left _ _)

theorem roundUnits_gap_dvd (n d : Nat) :
    Nat.pow 2 (gapExponent (roundUnits n d)) ∣ roundUnits n d := by
  refine gap_dvd_mul ?_
  refine Nat.le_trans (divRoundEven_le _ _) ?_
  rw [← Nat.div_div_eq_div_mul]
  exact div_gap_lt (n / d)

def Magnitude.ofRatio? (n d : Nat) : Option Magnitude :=
  if h : roundUnits n d < unitsLimit then some ⟨roundUnits n d, h, roundUnits_gap_dvd n d⟩
  else none

namespace Binary64

def ofRatio (negative : Bool) (n d : Nat) : Binary64 :=
  match Magnitude.ofRatio? n d with
  | some magnitude => .finite negative magnitude
  | none => .infinite negative

def isZero : Binary64 → Bool
  | .finite _ m => m.units == 0
  | _ => false

def isIntegral : Binary64 → Bool
  | .finite _ m => m.units % unitsPerOne == 0
  | _ => false

def signedUnits (negative : Bool) (m : Magnitude) : Int :=
  if negative then -(m.units : Int) else m.units

def toInt : Binary64 → Int
  | .finite negative m =>
    let n := m.units / unitsPerOne
    if negative then -(n : Int) else n
  | _ => 0

/-- Equality of numbers: both zeros are equal, and what is no number equals nothing. -/
def same : Binary64 → Binary64 → Bool
  | .infinite s, .infinite t => s == t
  | .finite s m, .finite t n => signedUnits s m == signedUnits t n
  | _, _ => false

def sameInt : Binary64 → Int → Bool
  | .finite s m, n => signedUnits s m == n * unitsPerOne
  | _, _ => false

end Binary64

end MessageCatalog.Number
