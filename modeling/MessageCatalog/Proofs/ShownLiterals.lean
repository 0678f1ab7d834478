import MessageCatalog.Proofs.AlikePhrases
import MessageCatalog.Proofs.EnglishFloats
import MessageCatalog.Proofs.QuotedText

/-!
# Shown literals

Where equal literals do not look alike, they are shown differently: a truth value is a word and no
number, a float has a point or an exponent and an integer has none, and only a negative zero has a
sign. The texts differ before they end, so they differ within any text.
-/
namespace MessageCatalog
open Number

/-- What a use shows of a value. Values that are handed on are shown where they end up in a
dictionary. -/
def Use.shown : Use → Value → String
  | .text, v => v.text
  | .value, v => v.inspect

/-- What may come after a value that is shown: anything after a text; in a list or a dictionary,
what comes after an item. -/
def Use.Ends : Use → List Char → Prop
  | .text, _ => True
  | .value, rest => ∀ c ∈ rest.head?, c = ',' ∨ c = ']' ∨ c = '\x7d'

theorem Use.Ends.cons {use : Use} {c : Char} (hc : c = ',' ∨ c = ']' ∨ c = '\x7d')
    (rest : List Char) : use.Ends (c :: rest) := by
  cases use with
  | text => trivial
  | value =>
    intro d hd
    cases hd
    exact hc

namespace Value

variable {v w : Value} {use : Use} {r s : List Char}

theorem shown_of_see (hv : v.hasText = true) (hw : w.hasText = true)
    (h : use.see v = use.see w) : use.shown v = use.shown w := by
  cases use with
  | text =>
    rw [see_text hv, see_text hw] at h
    exact str.inj h
  | value => exact congrArg inspect h

theorem isNumeric_of_isDigit {c : Char} (h : c.isDigit = true) : isNumeric c = true := by
  rw [isNumeric, h, Bool.true_or]

theorem exists_magnitudeChars (m : Magnitude) :
    ∃ whole c rest, magnitudeChars m = whole ++ c :: rest ∧ AreDigits whole ∧
      (c = '.' ∨ c = 'e') := by
  by_cases h : IsPositional m
  · obtain ⟨whole, fraction, htext, hwhole, -⟩ := h.exists_text
    exact ⟨whole, '.', fraction, htext, hwhole, .inl rfl⟩
  · have hdigits := areDigits_natChars (shortest m).1
    rw [magnitudeChars_of_not_positional h, scientific]
    generalize natChars (shortest m).1 = digits at hdigits ⊢
    cases digits with
    | nil => exact absurd rfl hdigits.ne_nil
    | cons d ds =>
      have hfirst : AreDigits [d] := hdigits.take Nat.one_pos
      cases ds with
      | nil => exact ⟨[d], 'e', _, rfl, hfirst, .inr rfl⟩
      | cons d' ds => exact ⟨[d], '.', _, rfl, hfirst, .inl rfl⟩

theorem exists_floatChars (negative : Bool) (m : Magnitude) :
    ∃ front c rest, floatChars (.finite negative m) = front ++ c :: rest ∧ front ≠ [] ∧
      (∀ d ∈ front, isNumeric d = true) ∧ (c = '.' ∨ c = 'e') := by
  obtain ⟨whole, c, rest, htext, hwhole, hc⟩ := exists_magnitudeChars m
  have hnumeric : ∀ d ∈ whole, isNumeric d = true := fun d hd =>
    isNumeric_of_isDigit (hwhole.isDigit d hd)
  cases negative with
  | false => exact ⟨whole, c, rest, htext, hwhole.ne_nil, hnumeric, hc⟩
  | true =>
    refine ⟨'-' :: whole, c, rest, congrArg ('-' :: ·) htext, by simp, ?_, hc⟩
    exact List.forall_mem_cons.2 ⟨rfl, hnumeric⟩

theorem finite_of_sameInt {x : Binary64} {n : Int} (h : x.sameInt n = true) :
    ∃ negative m, x = .finite negative m := by
  cases x with
  | nan | infinite => contradiction
  | finite negative m => exact ⟨negative, m, rfl⟩

theorem shown_int (n : Int) : (Use.shown .value (.int n)).toList = intChars n := by
  rw [Use.shown, inspect, intText, String.toList_ofList]

theorem shown_float (x : Binary64) : (Use.shown .value (.float x)).toList = floatChars x := by
  rw [Use.shown, inspect, floatText, String.toList_ofList]

theorem CountsAs.exists_numeric {n : Int} (h : v.CountsAs n) :
    ∃ c rest, (Use.shown .value v).toList = c :: rest ∧ isNumeric c = true := by
  cases h with
  | int =>
    rw [shown_int]
    exact Value.exists_numeric n
  | float hx =>
    obtain ⟨negative, m, rfl⟩ := finite_of_sameInt hx
    obtain ⟨front, c, rest, htext, hne, hfront, -⟩ := exists_floatChars negative m
    obtain ⟨d, ds, rfl⟩ := List.exists_cons_of_ne_nil hne
    exact ⟨d, ds ++ c :: rest, by rw [shown_float, htext, List.cons_append],
      hfront d List.mem_cons_self⟩

theorem shown_bool_ne {b : Bool} (hw : w.CountsAs (if b then 1 else 0)) :
    (use.shown (.bool b)).toList ++ r ≠ (use.shown w).toList ++ s := by
  intro heq
  cases use with
  | text =>
    rw [Use.shown, Use.shown, hw.text_eq] at heq
    cases b <;> exact absurd (List.cons.inj heq).1 (by decide)
  | value =>
    obtain ⟨c, rest, hshown, hc⟩ := hw.exists_numeric
    rw [hshown] at heq
    have hhead : c = if b then 'T' else 'F' := by
      cases b <;> exact (List.cons.inj heq).1.symm
    rw [hhead] at hc
    cases b <;> contradiction

theorem stops_of_ends (h : Use.Ends .value r) : Stops r := by
  intro c hc
  rcases h c hc with rfl | rfl | rfl <;> rfl

theorem shown_int_ne_float {x : Binary64} {n : Int} (hx : x.sameInt n = true)
    (hr : Use.Ends .value r) :
    (Use.shown .value (.int n)).toList ++ r ≠ (Use.shown .value (.float x)).toList ++ s := by
  obtain ⟨negative, m, rfl⟩ := finite_of_sameInt hx
  obtain ⟨front, c, rest, htext, -, hfront, hc⟩ := exists_floatChars negative m
  intro heq
  rw [shown_int, shown_float, htext, List.append_assoc, List.cons_append] at heq
  have hstops : Stops (c :: (rest ++ s)) := by
    refine stops_cons ?_ _
    rcases hc with rfl | rfl <;> rfl
  have hint : (intChars n ++ r).dropWhile isNumeric = r :=
    (Scan.takeWhile_dropWhile_run (fun _ => isNumeric_of_mem_intChars) (stops_of_ends hr)).2
  have hfloat : (front ++ c :: (rest ++ s)).dropWhile isNumeric = c :: (rest ++ s) :=
    (Scan.takeWhile_dropWhile_run hfront hstops).2
  rw [heq, hfloat] at hint
  subst hint
  rcases hr c rfl with rfl | rfl | rfl <;> rcases hc with hc | hc <;> contradiction

theorem shown_zero_ne {m : Magnitude} (hm : m.units = 0) :
    (Use.shown .value (.float (.finite true m))).toList ++ r ≠
      (Use.shown .value (.float (.finite false m))).toList ++ s := by
  have hzero : magnitudeChars m = ['0', '.', '0'] :=
    magnitudeChars_integer (k := 0) (by rw [hm, Nat.zero_mul]) (by decide)
  simp [shown_float, floatChars, hzero]

theorem Counterparts.shown_append (h : v.Counterparts w) (hv : v.hasText = true)
    (hw : w.hasText = true) (hr : use.Ends r) (hs : use.Ends s)
    (heq : (use.shown v).toList ++ r = (use.shown w).toList ++ s) :
    v.alike use w = true ∧ r = s := by
  suffices ha : v.alike use w = true by
    rw [shown_of_see hv hw (h.see_eq hv hw ha)] at heq
    exact ⟨ha, List.append_cancel_left heq⟩
  cases h with
  | refl => cases use <;> simp [alike]
  | truth hcounts => exact absurd heq (shown_bool_ne hcounts)
  | number hcounts => exact absurd heq.symm (shown_bool_ne hcounts)
  | whole hx => cases use with
    | text => rfl
    | value => exact absurd heq (shown_int_ne_float hx hr)
  | point hx => cases use with
    | text => rfl
    | value => exact absurd heq.symm (shown_int_ne_float hx hs)
  | @zeros negative negative' m hne hm => cases use with
    | text => rfl
    | value =>
      cases negative <;> cases negative'
      · contradiction
      · exact absurd heq.symm (shown_zero_ne hm)
      · exact absurd heq (shown_zero_ne hm)
      · contradiction

end Value

end MessageCatalog
