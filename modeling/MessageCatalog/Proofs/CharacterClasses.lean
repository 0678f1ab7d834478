import MessageCatalog.Text.Blank
import MessageCatalog.Text.DecimalDigit
import MessageCatalog.Text.WordChar

/-!
# Classes of characters

How the tables of characters lie to each other: no character of a word is a blank, nor is a digit
of any script.
-/
namespace MessageCatalog.Text

variable {c : Char}

def CodePoints.disjoint (rs bs : CodePoints) : Bool :=
  rs.all fun r => bs.all fun b => r.2 < b.1 || b.2 < r.1

theorem CodePoints.not_contains_of_disjoint {rs bs : CodePoints} (h : rs.disjoint bs = true)
    (hc : rs.contains c = true) : bs.contains c = false := by
  cases hb : bs.contains c with
  | false => rfl
  | true =>
    obtain ⟨r, hr, hr₁, hr₂⟩ := contains_iff.1 hc
    obtain ⟨b, hb, hb₁, hb₂⟩ := contains_iff.1 hb
    have hd := List.all_eq_true.1 (List.all_eq_true.1 h r hr) b hb
    simp only [Bool.or_eq_true, decide_eq_true_eq] at hd
    omega

theorem isDigit_bounds (h : c.isDigit = true) : 48 ≤ c.toNat ∧ c.toNat ≤ 57 := by
  simp only [Char.isDigit, Bool.and_eq_true, decide_eq_true_eq] at h
  exact h

theorem isAlphanum_bounds (h : c.isAlphanum = true) :
    48 ≤ c.toNat ∧ c.toNat ≤ 57 ∨ 65 ≤ c.toNat ∧ c.toNat ≤ 122 := by
  have hclasses : ((decide (c.val ≥ 65 ∧ c.val ≤ 90) ||
      (decide (c.val ≥ 97) && decide (c.val ≤ 122))) || c.isDigit) = true := h
  simp only [Bool.or_eq_true, Bool.and_eq_true, decide_eq_true_eq] at hclasses
  rcases hclasses with (⟨h₁, h₂⟩ | ⟨h₁, h₂⟩) | h
  · have h₁ : 65 ≤ c.toNat := h₁
    have h₂ : c.toNat ≤ 90 := h₂
    omega
  · have h₁ : 97 ≤ c.toNat := h₁
    have h₂ : c.toNat ≤ 122 := h₂
    omega
  · exact .inl (isDigit_bounds h)

theorem contains_of_isWord (h : isWord c = true) :
    CodePoints.contains ((48, 57) :: (65, 122) :: wordRanges) c = true := by
  rw [CodePoints.contains_iff]
  simp only [isWord, Bool.or_eq_true, beq_iff_eq] at h
  rcases h with (h | rfl) | h
  · rcases isAlphanum_bounds h with hb | hb
    · exact ⟨_, List.mem_cons_self, hb⟩
    · exact ⟨_, List.mem_cons_of_mem _ List.mem_cons_self, hb⟩
  · exact ⟨(65, 122), by simp, by decide⟩
  · obtain ⟨r, hr, hb⟩ := CodePoints.contains_iff.1 h
    exact ⟨r, by simp [hr], hb⟩

theorem isBlank_of_isWord (h : isWord c = true) : isBlank c = false :=
  CodePoints.not_contains_of_disjoint (by decide +kernel) (contains_of_isWord h)

theorem isDecimalDigit_of_isDigit (h : c.isDigit = true) : isDecimalDigit c = true := by
  rw [isDecimalDigit, digitValue?_of_isDigit h]
  rfl

theorem contains_of_isDecimalDigit (h : isDecimalDigit c = true) :
    CodePoints.contains ((48, 57) :: digitZeros.map fun z => (z, z + 9)) c = true := by
  rw [CodePoints.contains_iff]
  by_cases hd : c.isDigit = true
  · exact ⟨_, List.mem_cons_self, isDigit_bounds hd⟩
  · obtain ⟨n, hn⟩ := Option.isSome_iff_exists.1 h
    rw [digitValue?, if_neg hd] at hn
    obtain ⟨z, hz, hc⟩ := List.exists_of_findSome?_eq_some hn
    split at hc
    · next hr =>
      simp only [Bool.and_eq_true, decide_eq_true_eq] at hr
      refine ⟨(z, z + 9), List.mem_cons_of_mem _ (List.mem_map_of_mem hz), hr.1, ?_⟩
      have := hr.2
      omega
    · contradiction

theorem isBlank_of_isDecimalDigit (h : isDecimalDigit c = true) : isBlank c = false :=
  CodePoints.not_contains_of_disjoint (by decide +kernel) (contains_of_isDecimalDigit h)

theorem dropBlanks_cons {cs : List Char} (h : isBlank c = false) :
    dropBlanks (c :: cs) = c :: cs := by
  simp [dropBlanks, List.dropWhile, h]

end MessageCatalog.Text
