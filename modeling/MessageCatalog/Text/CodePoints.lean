/-!
# Sets of characters

Properties of characters are given as tables of code point ranges, and membership is a search of
the table.
-/
namespace MessageCatalog.Text

/-- Closed ranges of code points, in ascending order. -/
abbrev CodePoints := List (Nat × Nat)

def CodePoints.contains (ranges : CodePoints) (c : Char) : Bool :=
  ranges.any fun r => r.1 ≤ c.toNat && c.toNat ≤ r.2

theorem CodePoints.contains_iff {ranges : CodePoints} {c : Char} :
    ranges.contains c = true ↔ ∃ r ∈ ranges, r.1 ≤ c.toNat ∧ c.toNat ≤ r.2 := by
  simp [CodePoints.contains]

end MessageCatalog.Text
