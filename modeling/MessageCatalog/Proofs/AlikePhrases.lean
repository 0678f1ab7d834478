import Mathlib.Data.List.Forall2
import MessageCatalog.Proofs.ExactRounding
import MessageCatalog.Proofs.ParsedPhrases
import MessageCatalog.Proofs.RenderedText

/-!
# Alike phrases

Phrases compare by what their literals count as: `true` is equal to `1`, `1` to `1.0`, and `0.0` to
`-0.0`. A literal whose text becomes part of a text shows whether it is a truth value, one that is
handed on as it is shows its type as well, and the sign of a zero. Equal phrases whose literals
agree in all that shows are rendered alike.
-/
namespace MessageCatalog
open Number

namespace Number.Binary64

variable {x y : Binary64} {n : Int}

theorem natAbs_signedUnits (negative : Bool) (m : Magnitude) :
    (signedUnits negative m).natAbs = m.units := by
  cases negative with
  | false => rfl
  | true => exact Int.natAbs_neg _

theorem isIntegral_of_sameInt (h : x.sameInt n = true) :
    x.isIntegral = true ∧ x.toInt = n := by
  cases x with
  | nan | infinite => contradiction
  | finite negative m =>
    have hunits : signedUnits negative m = n * unitsPerOne := beq_iff_eq.1 h
    have hm : m.units = n.natAbs * unitsPerOne := by
      rw [← natAbs_signedUnits negative m, hunits, Int.natAbs_mul, Int.natAbs_natCast]
    have hwhole : m.units / unitsPerOne = n.natAbs := by
      rw [hm, Nat.mul_div_cancel _ unitsPerOne_pos]
    refine ⟨by rw [isIntegral, hm, Nat.mul_mod_left]; rfl, ?_⟩
    have hpos : (0 : Int) < unitsPerOne := Int.natCast_pos.2 unitsPerOne_pos
    simp only [toInt, hwhole]
    cases negative with
    | false =>
      have hn : 0 ≤ n := by
        refine Int.nonneg_of_mul_nonneg_left ?_ hpos
        rw [← hunits]
        exact Int.natCast_nonneg _
      simp only [Bool.false_eq_true, if_false]
      omega
    | true =>
      have hn : n ≤ 0 := by
        by_contra hn
        have hmul := Int.mul_pos (Int.not_le.1 hn) hpos
        rw [← hunits] at hmul
        simp only [signedUnits, if_true] at hmul
        omega
      simp only [if_true]
      omega

theorem eq_or_zeros_of_same (h : x.same y = true) :
    x = y ∨ ∃ s t m, s ≠ t ∧ m.units = 0 ∧ x = .finite s m ∧ y = .finite t m := by
  cases x with
  | nan => contradiction
  | infinite s => cases y with
    | nan | finite => contradiction
    | infinite t => exact .inl (congrArg _ (beq_iff_eq.1 h))
  | finite s m => cases y with
    | nan | infinite => contradiction
    | finite t n =>
      have hunits : signedUnits s m = signedUnits t n := beq_iff_eq.1 h
      obtain rfl : m = n := by
        apply Magnitude.ext
        rw [← natAbs_signedUnits s m, hunits, natAbs_signedUnits]
      by_cases hst : s = t
      · exact .inl (by rw [hst])
      · refine .inr ⟨s, t, m, hst, ?_, rfl, rfl⟩
        cases s <;> cases t <;> simp_all [signedUnits]

end Number.Binary64

namespace Value

inductive CountsAs : Value → Int → Prop where
  | int (n : Int) : CountsAs (.int n) n
  | float {x : Binary64} {n : Int} : x.sameInt n = true → CountsAs (.float x) n

/-- Equal literals: the same one, a truth value and a number, an integer and a float, or zeros of
both signs. -/
inductive Counterparts : Value → Value → Prop where
  | refl (v : Value) : Counterparts v v
  | truth {b : Bool} {w : Value} : w.CountsAs (if b then 1 else 0) → Counterparts (.bool b) w
  | number {b : Bool} {v : Value} : v.CountsAs (if b then 1 else 0) → Counterparts v (.bool b)
  | whole {n : Int} {x : Binary64} : x.sameInt n = true → Counterparts (.int n) (.float x)
  | point {n : Int} {x : Binary64} : x.sameInt n = true → Counterparts (.float x) (.int n)
  | zeros {s t : Bool} {m : Magnitude} : s ≠ t → m.units = 0 →
      Counterparts (.float (.finite s m)) (.float (.finite t m))

variable {v w : Value}

theorem IsLiteral.eq_or_quantity (hv : v.IsLiteral) (hw : w.IsLiteral) (h : v.same w = true) :
    v = w ∨ ∃ p q, v.quantity? = some p ∧ w.quantity? = some q ∧ p.same q = true := by
  cases hv with
  | float x => cases hw with
    | float y => simp_all [same, quantity?]
    | writable hw => cases hw <;> simp_all [same, quantity?]
  | writable hv => cases hw with
    | float y => cases hv <;> simp_all [same, quantity?]
    | writable hw => cases hv <;> cases hw <;> simp_all [same, quantity?]

theorem counterparts_of_quantity {p q : Quantity} (hp : v.quantity? = some p)
    (hq : w.quantity? = some q) (h : p.same q = true) : v.Counterparts w := by
  cases v with
  | bool b =>
    cases hp
    cases w with
    | bool c =>
      cases hq
      cases b <;> cases c <;> first | exact .refl _ | contradiction
    | int n =>
      cases hq
      rw [← eq_of_beq h]
      exact .truth (.int _)
    | float y =>
      cases hq
      exact .truth (.float h)
    | _ => cases hq
  | int m =>
    cases hp
    cases w with
    | bool c =>
      cases hq
      rw [eq_of_beq h]
      exact .number (.int _)
    | int n =>
      cases hq
      rw [eq_of_beq h]
      exact .refl _
    | float y =>
      cases hq
      exact .whole h
    | _ => cases hq
  | float x =>
    cases hp
    cases w with
    | bool c =>
      cases hq
      exact .number (.float h)
    | int n =>
      cases hq
      exact .point h
    | float y =>
      cases hq
      obtain rfl | ⟨s, t, m, hst, hm, rfl, rfl⟩ := Binary64.eq_or_zeros_of_same h
      · exact .refl _
      · exact .zeros hst hm
    | _ => cases hq
  | _ => cases hp

theorem IsLiteral.counterparts (hv : v.IsLiteral) (hw : w.IsLiteral) (h : v.same w = true) :
    v.Counterparts w := by
  obtain rfl | ⟨p, q, hp, hq, h⟩ := hv.eq_or_quantity hw h
  · exact .refl v
  · exact counterparts_of_quantity hp hq h

def isBool : Value → Bool
  | .bool _ => true
  | _ => false

def isNegativeZero : Value → Bool
  | .float (.finite true m) => m.units == 0
  | _ => false

end Value

/-- What is done with the value of an expression. Its text becomes part of a text, in a phrase or in
a template, or it is handed on as it is, as an argument or as a property. -/
inductive Use where
  | text | value
deriving DecidableEq

/-- What a use leaves of a value. For a text, all values without one are the same. -/
def Use.see : Use → Value → Value
  | .text, v => if v.hasText then .str v.text else .int (10 ^ maxDigits)
  | .value, v => v

namespace Value

variable {v w : Value} {n : Int} {use : Use}

/-- Whether equal literals look alike in a use. -/
def alike : Use → Value → Value → Bool
  | .text, v, w => v.isBool == w.isBool
  | .value, v, w => v.typeName == w.typeName && v.isNegativeZero == w.isNegativeZero

theorem CountsAs.text_eq (h : v.CountsAs n) : v.text = intText n := by
  cases h with
  | int => rfl
  | @float x n hx =>
    obtain ⟨hintegral, hn⟩ := Binary64.isIntegral_of_sameInt hx
    rw [text, hintegral, hn]
    rfl

theorem CountsAs.isBool_eq (h : v.CountsAs n) : v.isBool = false := by
  cases h <;> rfl

theorem text_zero {negative : Bool} {m : Magnitude} (hm : m.units = 0) :
    text (.float (.finite negative m)) = "0" := by
  have hcounts : CountsAs (.float (.finite negative m)) 0 := by
    refine .float ?_
    cases negative <;> simp [Binary64.sameInt, Binary64.signedUnits, hm]
  rw [hcounts.text_eq]
  rfl

theorem see_text (h : v.hasText = true) : Use.see .text v = .str v.text := if_pos h

theorem Counterparts.see_eq (h : v.Counterparts w) (hv : v.hasText = true) (hw : w.hasText = true)
    (ha : v.alike use w = true) : use.see v = use.see w := by
  cases h with
  | refl => rfl
  | truth hcounts => cases use with
    | text =>
      rw [alike, hcounts.isBool_eq] at ha
      contradiction
    | value => cases hcounts <;> simp [alike, typeName] at ha
  | number hcounts => cases use with
    | text =>
      rw [alike, hcounts.isBool_eq] at ha
      contradiction
    | value => cases hcounts <;> simp [alike, typeName] at ha
  | whole hx => cases use with
    | text =>
      rw [see_text hv, see_text hw, (CountsAs.int _).text_eq, (CountsAs.float hx).text_eq]
    | value => simp [alike, typeName] at ha
  | point hx => cases use with
    | text =>
      rw [see_text hv, see_text hw, (CountsAs.int _).text_eq, (CountsAs.float hx).text_eq]
    | value => simp [alike, typeName] at ha
  | @zeros s t m hst hm => cases use with
    | text => rw [see_text hv, see_text hw, text_zero hm, text_zero hm]
    | value => cases s <;> cases t <;> simp_all [alike, isNegativeZero]

theorem hasText_see (use : Use) (v : Value) : (use.see v).hasText = v.hasText := by
  cases use with
  | value => rfl
  | text =>
    rw [Use.see]
    cases v.hasText with
    | true => rfl
    | false => exact hasText_pow

@[simp] theorem text?_see (use : Use) (v : Value) : (use.see v).text? = v.text? := by
  unfold text?
  rw [hasText_see]
  cases use with
  | value => rfl
  | text => cases hv : v.hasText <;> simp [Use.see, hv, text]

@[simp] theorem write_see {σ : Type} (use : Use) (v : Value) :
    ((use.see v).write : Eval σ String) = v.write := by
  rw [write, write, text?_see]

theorem allHaveText_see (use : Use) (vs : List Value) :
    allHaveText (vs.map use.see) = allHaveText vs := by
  induction vs with
  | nil => rfl
  | cons v vs ih => rw [List.map_cons, allHaveText, allHaveText, hasText_see, ih]

theorem textItems_see (use : Use) {vs : List Value} (h : allHaveText vs = true) :
    textItems (vs.map use.see) = textItems vs := by
  induction vs with
  | nil => rfl
  | cons v vs ih =>
    rw [allHaveText, Bool.and_eq_true] at h
    have htext : (use.see v).text = v.text := by
      cases use with
      | value => rfl
      | text => rw [see_text h.1, text]
    rw [List.map_cons, textItems, textItems, ih h.2, htext]

theorem joinText?_see (use : Use) (vs : List Value) :
    joinText? (vs.map use.see) = joinText? vs := by
  unfold joinText?
  rw [allHaveText_see]
  cases h : allHaveText vs with
  | true => rw [joinText, joinText, textItems_see use h]
  | false => rfl

theorem see_list (use : Use) (vs : List Value) :
    use.see (.list (vs.map use.see)) = use.see (.list vs) := by
  cases use with
  | value => rw [Use.see, Use.see, show Use.see .value = id from rfl, List.map_id]
  | text =>
    rw [Use.see, Use.see, hasText, hasText, allHaveText_see]
    cases h : allHaveText vs with
    | true => rw [text, text, textItems_see .text h]
    | false => rfl

end Value

namespace Expr

mutual

def alike : Use → Expr → Expr → Bool
  | use, .literal v, .literal w => v.alike use w
  | _, .call _ xs, .call _ ys => alikeAll .value xs ys
  | use, .array xs, .array ys => alikeAll use xs ys
  | _, .object ps, .object qs => alikeProperties ps qs
  | _, .template xs, .template ys => alikeAll .text xs ys
  | _, _, _ => true

def alikeAll : Use → List Expr → List Expr → Bool
  | use, x :: xs, y :: ys => alike use x y && alikeAll use xs ys
  | _, _, _ => true

def alikeProperties : List (String × Expr) → List (String × Expr) → Bool
  | (_, x) :: ps, (_, y) :: qs => alike .value x y && alikeProperties ps qs
  | _, _ => true

end

abbrev AllSame (xs ys : List Expr) : Prop := List.Forall₂ (fun x y => x.same y = true) xs ys

abbrev PropertiesSame (ps qs : List (String × Expr)) : Prop :=
  List.Forall₂ (fun p q => p.1 = q.1 ∧ p.2.same q.2 = true) ps qs

theorem allSame_of_sameAll {xs ys : List Expr} (h : sameAll xs ys = true) : AllSame xs ys := by
  induction xs generalizing ys with
  | nil => cases ys with
    | nil => exact .nil
    | cons y ys => simp [sameAll] at h
  | cons x xs ih => cases ys with
    | nil => simp [sameAll] at h
    | cons y ys =>
      rw [sameAll, Bool.and_eq_true] at h
      exact .cons h.1 (ih h.2)

theorem propertiesSame_of_sameProperties {ps qs : List (String × Expr)}
    (h : sameProperties ps qs = true) : PropertiesSame ps qs := by
  induction ps generalizing qs with
  | nil => cases qs with
    | nil => exact .nil
    | cons q qs => simp [sameProperties] at h
  | cons p ps ih => cases qs with
    | nil => simp [sameProperties] at h
    | cons q qs =>
      simp only [sameProperties, Bool.and_eq_true, beq_iff_eq] at h
      exact .cons h.1 (ih h.2)

inductive Opposite : Expr → Expr → Prop where
  | literal {v w : Value} : v.same w = true → Opposite (.literal v) (.literal w)
  | identifier (name : String) : Opposite (.identifier name) (.identifier name)
  | call (callee : String) {xs ys : List Expr} :
      AllSame xs ys → Opposite (.call callee xs) (.call callee ys)
  | array {xs ys : List Expr} : AllSame xs ys → Opposite (.array xs) (.array ys)
  | object {ps qs : List (String × Expr)} :
      PropertiesSame ps qs → Opposite (.object ps) (.object qs)
  | template {xs ys : List Expr} : AllSame xs ys → Opposite (.template xs) (.template ys)
  | unknown (kind : String) : Opposite (.unknown kind) (.unknown kind)

theorem opposite_of_same {e d : Expr} (h : e.same d = true) : e.Opposite d := by
  unfold same at h
  split at h
  · exact .literal h
  · rw [eq_of_beq h]
    exact .identifier _
  · rw [Bool.and_eq_true] at h
    rw [eq_of_beq h.1]
    exact .call _ (allSame_of_sameAll h.2)
  · exact .array (allSame_of_sameAll h)
  · exact .object (propertiesSame_of_sameProperties h)
  · exact .template (allSame_of_sameAll h)
  · rw [eq_of_beq h]
    exact .unknown _
  · contradiction

end Expr

section Evaluation

variable {σ : Type} {call : Callable → List Value → Eval σ Value} {locals : Locals}

theorem Use.see_value : Use.see .value = id := rfl

theorem seeAll_list (use : Use) (x : Eval σ (List Value)) :
    use.see <$> (x >>= fun vs => pure (.list vs)) =
      (fun vs => use.see (.list vs)) <$> (List.map use.see <$> x) := by
  simp [Value.see_list]

theorem see_write (x : Eval σ Value) (f : String → Eval σ String) :
    (x >>= fun v => v.write >>= f) = (Use.see .text <$> x >>= fun v => v.write >>= f) := by
  simp

theorem seeAll_cons (use : Use) (x : Eval σ Value) (xs : Eval σ (List Value)) :
    List.map use.see <$> (x >>= fun v => xs >>= fun vs => pure (v :: vs)) =
      (use.see <$> x >>= fun v => List.map use.see <$> xs >>= fun vs => pure (v :: vs)) := by
  simp

mutual

theorem Expr.see_evaluate {e d : Expr} {use : Use} (he : e.IsParsed) (hd : d.IsParsed)
    (hs : e.same d = true) (ha : e.alike use d = true) :
    use.see <$> e.evaluate call locals = use.see <$> d.evaluate call locals := by
  cases opposite_of_same hs with
  | identifier | unknown => rfl
  | literal hvw =>
    cases he with
    | literal hv => cases hd with
      | literal hw =>
        have hsee := (hv.counterparts hw hvw).see_eq hv.hasText hw.hasText ha
        simp [evaluate, hsee]
  | @call callee xs ys hsame =>
    cases he with
    | call _ hxs => cases hd with
      | call _ hys =>
        have hargs : List.map (Use.see .value) <$> evaluateAll call locals xs = _ :=
          seeAll_evaluate hxs hys hsame ha
        simp only [Use.see_value, List.map_id_fun, id_map] at hargs
        rw [evaluate, evaluate, hargs]
  | array hsame =>
    cases he with
    | array hxs => cases hd with
      | array hys =>
        rw [evaluate, evaluate, seeAll_list, seeAll_list, seeAll_evaluate hxs hys hsame ha]
  | object hsame =>
    cases he with
    | object _ _ hps => cases hd with
      | object _ _ hqs => rw [evaluate, evaluate, seeProperties_evaluate hps hqs hsame ha]
  | template hsame =>
    cases he with
    | template hxs => cases hd with
      | template hys => rw [evaluate, evaluate, seeText_evaluate hxs hys hsame ha]
termination_by structural e

theorem Expr.seeAll_evaluate {xs ys : List Expr} {use : Use} (hxs : ∀ e ∈ xs, e.IsParsed)
    (hys : ∀ e ∈ ys, e.IsParsed) (hs : AllSame xs ys) (ha : alikeAll use xs ys = true) :
    List.map use.see <$> evaluateAll call locals xs =
      List.map use.see <$> evaluateAll call locals ys := by
  cases hs with
  | nil => rfl
  | cons hx hsame =>
    obtain ⟨hx', hxs⟩ := List.forall_mem_cons.1 hxs
    obtain ⟨hy', hys⟩ := List.forall_mem_cons.1 hys
    rw [alikeAll, Bool.and_eq_true] at ha
    rw [evaluateAll, evaluateAll, seeAll_cons, seeAll_cons, see_evaluate hx' hy' hx ha.1,
      seeAll_evaluate hxs hys hsame ha.2]
termination_by structural xs

theorem Expr.seeText_evaluate {xs ys : List Expr} (hxs : ∀ e ∈ xs, e.IsParsed)
    (hys : ∀ e ∈ ys, e.IsParsed) (hs : AllSame xs ys) (ha : alikeAll .text xs ys = true) :
    evaluateText call locals xs = evaluateText call locals ys := by
  cases hs with
  | nil => rfl
  | cons hx hsame =>
    obtain ⟨hx', hxs⟩ := List.forall_mem_cons.1 hxs
    obtain ⟨hy', hys⟩ := List.forall_mem_cons.1 hys
    rw [alikeAll, Bool.and_eq_true] at ha
    rw [evaluateText, see_write, see_evaluate hx' hy' hx ha.1, ← see_write,
      seeText_evaluate hxs hys hsame ha.2, evaluateText]
termination_by structural xs

theorem Expr.seeProperties_evaluate {ps qs : List (String × Expr)} (hps : ∀ p ∈ ps, p.2.IsParsed)
    (hqs : ∀ q ∈ qs, q.2.IsParsed) (hs : PropertiesSame ps qs)
    (ha : alikeProperties ps qs = true) :
    evaluateProperties call locals ps = evaluateProperties call locals qs := by
  cases hs with
  | nil => rfl
  | @cons p q ps qs hpq hsame =>
    obtain ⟨name, x⟩ := p
    obtain ⟨key, y⟩ := q
    obtain ⟨rfl, hx⟩ : name = key ∧ x.same y = true := hpq
    obtain ⟨hx', hps⟩ := List.forall_mem_cons.1 hps
    obtain ⟨hy', hqs⟩ := List.forall_mem_cons.1 hqs
    rw [alikeProperties, Bool.and_eq_true] at ha
    have hvalue : Use.see .value <$> x.evaluate call locals = _ := see_evaluate hx' hy' hx ha.1
    simp only [Use.see_value, id_map] at hvalue
    rw [evaluateProperties, evaluateProperties, hvalue, seeProperties_evaluate hps hqs hsame ha.2]
termination_by structural ps

end

end Evaluation

namespace Phrase

def alike (p q : Phrase) : Bool := Expr.alikeAll .text p q

theorem sameText_of_alike {p q : Phrase} (hp : ∀ e ∈ p, e.IsParsed) (hq : ∀ e ∈ q, e.IsParsed)
    (hs : p.same q = true) (ha : p.alike q = true) : p.SameText q := by
  intro σ call locals
  have hsee : List.map (Use.see .text) <$> p.evaluate call locals = _ :=
    Expr.seeAll_evaluate hp hq (Expr.allSame_of_sameAll hs) ha
  have hjoined : ∀ r : Phrase, r.joined call locals =
      Value.joinText? <$> (List.map (Use.see .text) <$> r.evaluate call locals) := fun r => by
    simp [joined, Value.joinText?_see]
  rw [hjoined, hjoined, hsee, evaluate]

end Phrase

end MessageCatalog
