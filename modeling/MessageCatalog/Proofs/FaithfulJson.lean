import MessageCatalog.Phrase.Json
import MessageCatalog.Proofs.JsonReading
import MessageCatalog.Proofs.Spelling

/-!
# Phrases told apart by JSON

A node is written as a dictionary with its type and its fields, and JSON text is read in one way
only. So nodes are told apart by their types, those of one type by their fields, and a literal that
is undefined by having none.
-/
namespace MessageCatalog

namespace Expr

/-- Expressions of known nodes in which no literal is a float. -/
inductive IsExact : Expr → Prop where
  | literal {v : Value} : v.IsWritable → IsExact (.literal v)
  | identifier (name : String) : IsExact (.identifier name)
  | call (callee : String) {es : List Expr} : (∀ e ∈ es, IsExact e) → IsExact (.call callee es)
  | array {es : List Expr} : (∀ e ∈ es, IsExact e) → IsExact (.array es)
  | object {ps : List (String × Expr)} : (∀ p ∈ ps, IsExact p.2) → IsExact (.object ps)
  | template {es : List Expr} : (∀ e ∈ es, IsExact e) → IsExact (.template es)

theorem toValues_eq_map (es : List Expr) : toValues es = es.map toValue := by
  induction es with
  | nil => rfl
  | cons e es ih => rw [toValues, ih, List.map_cons]

theorem toEntries_eq_map (ps : List (String × Expr)) :
    toEntries ps = ps.map fun p => (.str p.1, toValue p.2) := by
  induction ps with
  | nil => rfl
  | cons p ps ih =>
    obtain ⟨name, e⟩ := p
    rw [toEntries, ih, List.map_cons]

def typeName : Expr → String
  | .literal _ => "Literal"
  | .identifier _ => "Identifier"
  | .call .. => "CallExpression"
  | .array _ => "ArrayExpression"
  | .object _ => "ObjectExpression"
  | .template _ => "TemplateLiteral"
  | .unknown kind => kind

def fields : Expr → List (String × Value)
  | .literal .undefined => []
  | .literal v => [("value", v)]
  | .identifier name => [("name", .str name)]
  | .call callee es => [("callee", .str callee), ("arguments", .list (es.map toValue))]
  | .array es => [("elements", .list (es.map toValue))]
  | .object ps => [("properties", .dict (ps.map fun p => (.str p.1, p.2.toValue)))]
  | .template es => [("parts", .list (es.map toValue))]
  | .unknown _ => []

theorem toValue_eq_record (e : Expr) : e.toValue = record e.typeName e.fields := by
  cases e with
  | literal v => cases v <;> rfl
  | identifier | unknown => rfl
  | call | array | template => simp only [toValue, toValues_eq_map, typeName, fields]
  | object => simp only [toValue, toEntries_eq_map, typeName, fields]

theorem record_inj {type type' : String} {fs gs : List (String × Value)}
    (h : record type fs = record type' gs) : type = type' ∧ fs = gs := by
  obtain ⟨htype, hfields⟩ := List.cons.inj (Value.dict.inj h)
  refine ⟨Value.str.inj (Prod.mk.inj htype).2, (List.map_inj_right fun f g hfg => ?_).1 hfields⟩
  obtain ⟨hname, hvalue⟩ := Prod.mk.inj hfg
  exact Prod.ext (Value.str.inj hname) hvalue

theorem isJson_record {type : String} {fs : List (String × Value)}
    (h : ∀ f ∈ fs, f.2.IsJson) : (record type fs).IsJson := by
  refine .dict (List.forall_mem_cons.2 ⟨⟨"type", rfl⟩, ?_⟩)
    (List.forall_mem_cons.2 ⟨.str type, List.forall_mem_map.2 h⟩)
  exact List.forall_mem_map.2 fun f _ => ⟨f.1, rfl⟩

theorem isJson_fields_literal {v : Value} (h : v.IsWritable) :
    ∀ f ∈ (literal v).fields, f.2.IsJson := by
  cases h with
  | undefined => simp [fields]
  | null => simp [fields, Value.IsJson.null]
  | bool b => simp [fields, Value.IsJson.bool]
  | int n => simp [fields, Value.IsJson.int]
  | str s => simp [fields, Value.IsJson.str]

theorem isJson_map_toValue {es : List Expr} (h : ∀ e ∈ es, e.toValue.IsJson) :
    (Value.list (es.map toValue)).IsJson :=
  .list (List.forall_mem_map.2 h)

theorem IsExact.isJson_toValue {e : Expr} (h : e.IsExact) : e.toValue.IsJson := by
  induction h
  all_goals
    rw [toValue_eq_record]
    apply isJson_record
  case literal hv => exact isJson_fields_literal hv
  case identifier name => simp [fields, Value.IsJson.str]
  case call ih => simp [fields, Value.IsJson.str, isJson_map_toValue ih]
  case array ih => simp [fields, isJson_map_toValue ih]
  case template ih => simp [fields, isJson_map_toValue ih]
  case object ps _ ih =>
    refine List.forall_mem_singleton.2 (.dict ?_ (List.forall_mem_map.2 ih))
    exact List.forall_mem_map.2 fun p _ => ⟨p.1, rfl⟩

theorem fields_literal_inj {v w : Value} (h : (literal v).fields = (literal w).fields) : v = w := by
  cases v <;> cases w <;> simp_all [fields]

theorem map_inj_of_forall {α β : Type} {f : α → β} {P : α → Prop} {as bs : List α}
    (has : ∀ a ∈ as, ∀ b, P b → f a = f b → a = b) (hbs : ∀ b ∈ bs, P b)
    (h : as.map f = bs.map f) : as = bs := by
  induction as generalizing bs with
  | nil => exact (List.map_eq_nil_iff.1 h.symm).symm
  | cons a as ih =>
    cases bs with
    | nil => contradiction
    | cons b bs =>
      obtain ⟨ha, has⟩ := List.forall_mem_cons.1 has
      obtain ⟨hb, hbs⟩ := List.forall_mem_cons.1 hbs
      obtain ⟨hhead, htail⟩ := List.cons.inj h
      rw [ha b hb hhead, ih has hbs htail]

theorem IsExact.toValue_inj {e : Expr} (h : e.IsExact) :
    ∀ d : Expr, d.IsExact → e.toValue = d.toValue → e = d := by
  induction h
  -- Types agree, so of the nodes that `d` may be only that of the same kind is left.
  all_goals
    intro d hd heq
    rw [toValue_eq_record, toValue_eq_record] at heq
    obtain ⟨htype, hfields⟩ := record_inj heq
  case literal =>
    cases hd with
    | literal => rw [fields_literal_inj hfields]
    | _ => simp [typeName] at htype
  case identifier =>
    cases hd with
    | identifier => simpa [fields] using hfields
    | _ => simp [typeName] at htype
  case call ih =>
    cases hd with
    | call callee hds =>
      simp only [fields, List.cons.injEq, Prod.mk.injEq, Value.str.injEq, Value.list.injEq,
        true_and, and_true] at hfields
      rw [hfields.1, map_inj_of_forall ih hds hfields.2]
    | _ => simp [typeName] at htype
  case array ih =>
    cases hd with
    | array hds =>
      simp only [fields, List.cons.injEq, Prod.mk.injEq, Value.list.injEq, true_and, and_true]
        at hfields
      rw [map_inj_of_forall ih hds hfields]
    | _ => simp [typeName] at htype
  case object ih =>
    cases hd with
    | object hqs =>
      simp only [fields, List.cons.injEq, Prod.mk.injEq, Value.dict.injEq, true_and, and_true]
        at hfields
      refine congrArg Expr.object (map_inj_of_forall (fun p hp q hq hpq => ?_) hqs hfields)
      obtain ⟨hname, hvalue⟩ := Prod.mk.inj hpq
      exact Prod.ext (Value.str.inj hname) (ih p hp q.2 hq hvalue)
    | _ => simp [typeName] at htype
  case template ih =>
    cases hd with
    | template hds =>
      simp only [fields, List.cons.injEq, Prod.mk.injEq, Value.list.injEq, true_and, and_true]
        at hfields
      rw [map_inj_of_forall ih hds hfields]
    | _ => simp [typeName] at htype

end Expr

namespace Expr

theorem hasText_record (type : String) (fs : List (String × Value)) :
    (record type fs).hasText = fs.all fun f => f.2.hasText := by
  simp only [record, Value.hasText, Value.entriesHaveText_eq_all, List.all_cons, List.all_map,
    Bool.true_and]
  rfl

theorem allHaveText_map_toValue {es : List Expr}
    (h : ∀ e ∈ es, e.toValue.hasText = e.integers.all Number.hasText) :
    Value.allHaveText (es.map toValue) = (integersAll es).all Number.hasText := by
  induction es with
  | nil => rfl
  | cons e es ih =>
    obtain ⟨he, hes⟩ := List.forall_mem_cons.1 h
    rw [List.map_cons, Value.allHaveText, he, ih hes, integersAll, List.all_append]

theorem entriesHaveText_map_toValue {ps : List (String × Expr)}
    (h : ∀ p ∈ ps, p.2.toValue.hasText = p.2.integers.all Number.hasText) :
    Value.entriesHaveText (ps.map fun p => (.str p.1, p.2.toValue)) =
      (integersOf ps).all Number.hasText := by
  induction ps with
  | nil => rfl
  | cons p ps ih =>
    obtain ⟨name, e⟩ := p
    obtain ⟨he, hps⟩ := List.forall_mem_cons.1 h
    rw [List.map_cons, Value.entriesHaveText, he, ih hps, integersOf, List.all_append]
    rfl

theorem IsExact.hasText_toValue {e : Expr} (h : e.IsExact) :
    e.toValue.hasText = e.integers.all Number.hasText := by
  induction h
  all_goals rw [toValue_eq_record, hasText_record]
  case literal hv => cases hv <;> simp [fields, integers, Value.hasText]
  case identifier name => rfl
  case call ih => simp [fields, integers, Value.hasText, allHaveText_map_toValue ih]
  case array ih => simp [fields, integers, Value.hasText, allHaveText_map_toValue ih]
  case template ih => simp [fields, integers, Value.hasText, allHaveText_map_toValue ih]
  case object ih => simp [fields, integers, Value.hasText, entriesHaveText_map_toValue ih]

end Expr

namespace Phrase

theorem isJson_toValue {p : Phrase} (hp : ∀ e ∈ p, e.IsExact) : p.toValue.IsJson := by
  rw [toValue, Expr.toValues_eq_map]
  exact Expr.isJson_map_toValue fun e he => (hp e he).isJson_toValue

theorem json_writesIf {p : Phrase} (hp : ∀ e ∈ p, e.IsExact) :
    Value.WritesIf (p.integers.all Number.hasText) p.json := by
  have htext : p.toValue.hasText = p.integers.all Number.hasText := by
    rw [toValue, Value.hasText, Expr.toValues_eq_map,
      Expr.allHaveText_map_toValue fun e he => (hp e he).hasText_toValue, integers]
  exact htext ▸ (isJson_toValue hp).json_writesIf

/-- A phrase of known nodes without floats can be written as JSON unless one of its integers is
beyond the digit limit, and its text is that of no other such phrase: kinds of nodes, the order of
items and properties, and the types of literals can all be told from it. -/
theorem json_faithful {p : Phrase} (hp : ∀ e ∈ p, e.IsExact) :
    ((∃ text, p.json = .ok text) ↔ ∀ n ∈ p.integers, n.natAbs < 10 ^ Number.maxDigits) ∧
    (∀ error, p.json = .error error → error = .overlongInteger) ∧
    ∀ (q : Phrase) (text : String), (∀ e ∈ q, e.IsExact) → p.json = .ok text → q.json = .ok text →
      q = p := by
  have hwrites := json_writesIf hp
  refine ⟨?_, fun _ => hwrites.error_eq, fun q text hq hptext hqtext => ?_⟩
  · rw [hwrites.exists_ok_iff]
    simp only [List.all_eq_true, Number.hasText_iff]
  · have hvalue : q.toValue = p.toValue :=
      (isJson_toValue hq).json_inj (isJson_toValue hp) hqtext hptext
    rw [toValue, toValue, Expr.toValues_eq_map, Expr.toValues_eq_map] at hvalue
    exact Expr.map_inj_of_forall (fun e he => (hq e he).toValue_inj) hp (Value.list.inj hvalue)

theorem json_faithful_alike :
    let properties : List (String × Expr) := [("\"\x7d", .text "\n")]
    let p : Phrase := [.call "f" [.literal .undefined, .literal (.int 1), .object properties]]
    let q : Phrase := [.call "f" [.literal .null, .literal (.bool true), .object properties]]
    let r : Phrase := [.call "f" [.literal .undefined, .text "1", .object properties]]
    (∀ e ∈ p, e.IsExact) ∧ ∃ text, p.json = .ok text ∧ q.json ≠ .ok text ∧ r.json ≠ .ok text := by
  intro properties p q r
  have hobject : (Expr.object properties).IsExact :=
    .object (List.forall_mem_singleton.2 (.literal (.str "\n")))
  have hcall : ∀ {v w : Value}, v.IsWritable → w.IsWritable →
      ∀ e ∈ [Expr.call "f" [.literal v, .literal w, .object properties]], e.IsExact :=
    fun hv hw => List.forall_mem_singleton.2 (.call "f" (List.forall_mem_cons.2
      ⟨.literal hv, List.forall_mem_cons.2 ⟨.literal hw, List.forall_mem_singleton.2 hobject⟩⟩))
  have hp : ∀ e ∈ p, e.IsExact := hcall .undefined (.int 1)
  obtain ⟨hwritable, -, hunique⟩ := json_faithful hp
  obtain ⟨text, htext⟩ := hwritable.2 fun n hn => by
    obtain rfl : n = 1 := by simpa [p, properties, integers, Expr.integersAll, Expr.integers,
      Expr.integersOf, Expr.text] using hn
    exact Nat.one_lt_pow (by decide) (by decide)
  refine ⟨hp, text, htext, fun hq => ?_, fun hr => ?_⟩
  · have heq := hunique q text (hcall .null (.bool true)) htext hq
    simp [p, q] at heq
  · have heq := hunique r text (hcall .undefined (.str "1")) htext hr
    simp [p, r, Expr.text] at heq

theorem json_ne_ok_of_int {n : Int} (hn : Number.hasText n = false) (text : String) :
    json [.literal (.int n)] ≠ .ok text := by
  have hp : ∀ e ∈ ([.literal (.int n)] : Phrase), e.IsExact :=
    List.forall_mem_singleton.2 (.literal (.int n))
  intro h
  have hall := (json_writesIf hp).exists_ok_iff.1 ⟨text, h⟩
  simp [integers, Expr.integersAll, Expr.integers, hn] at hall

/-- There is no JSON of an integer beyond the limit. -/
theorem json_faithful_overlong :
    ¬ ∀ p : Phrase, (∀ e ∈ p, e.IsExact) → ∃ text, p.json = .ok text := by
  intro h
  obtain ⟨text, htext⟩ := h [.literal (.int (10 ^ Number.maxDigits))]
    (List.forall_mem_singleton.2 (.literal (.int _)))
  exact json_ne_ok_of_int Number.hasText_pow text htext

end Phrase

end MessageCatalog
