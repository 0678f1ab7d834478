import Mathlib.Data.List.Forall2
import Mathlib.Tactic.IntervalCases
import MessageCatalog.Proofs.Lexemes
import MessageCatalog.Value.Json
import MessageCatalog.Value.Text

/-!
# Reading JSON

JSON text can be read in one way only: where a written value stands at the front of a text, no other
value does, and where it ends is settled too. The first character tells what kind of value it is,
a string ends at the first quote that is not escaped, a number where its digits end, and a list or
a dictionary at its bracket.
-/
namespace MessageCatalog
open Number Text

namespace Value

/-- The values that JSON text can hold, but for floats. -/
inductive IsJson : Value → Prop where
  | null : IsJson .null
  | bool (b : Bool) : IsJson (.bool b)
  | int (n : Int) : IsJson (.int n)
  | str (s : String) : IsJson (.str s)
  | list {items : List Value} : (∀ v ∈ items, IsJson v) → IsJson (.list items)
  | dict {entries : List (Value × Value)} : (∀ e ∈ entries, ∃ k, e.1 = .str k) →
      (∀ e ∈ entries, IsJson e.2) → IsJson (.dict entries)

def jsonEscape? : Char → Option Char
  | '"' => some '"'
  | '\\' => some '\\'
  | 'n' => some '\n'
  | 'r' => some '\r'
  | 't' => some '\t'
  | 'b' => some '\x08'
  | 'f' => some '\x0c'
  | _ => none

def hexValue (c : Char) : Nat := if c.isDigit then c.toNat - 48 else c.toNat - 87

def nextJsonChar? : List Char → Option (Char × List Char)
  | '\\' :: 'u' :: _ :: _ :: high :: low :: rest =>
    some (Char.ofNat (16 * hexValue high + hexValue low), rest)
  | '\\' :: letter :: rest => (jsonEscape? letter).map (·, rest)
  | c :: rest => if c = '"' then none else some (c, rest)
  | [] => none

theorem nextJsonChar_control {c : Char} (h : c.toNat < 0x20) (rest : List Char) :
    nextJsonChar? (jsonChar c ++ rest) = some (c, rest) := by
  obtain ⟨n, hn, rfl⟩ : ∃ n < 0x20, c = Char.ofNat n := ⟨c.toNat, h, (Char.ofNat_toNat c).symm⟩
  interval_cases n <;> rfl

theorem nextJsonChar_jsonChar (c : Char) (rest : List Char) :
    nextJsonChar? (jsonChar c ++ rest) = some (c, rest) := by
  -- Control characters, quotes and backslashes are escaped, and no other character is.
  by_cases hcontrol : c.toNat < 0x20
  · exact nextJsonChar_control hcontrol rest
  by_cases hquote : c = '"'
  · subst hquote
    rfl
  by_cases hslash : c = '\\'
  · subst hslash
    rfl
  have hself : jsonChar c = [c] := by
    have hne : ∀ d : Char, d.toNat < 0x20 → c ≠ d := fun d hd h => hcontrol (h ▸ hd)
    simp [jsonChar, hquote, hslash, hcontrol, hne]
  rw [hself, List.singleton_append, nextJsonChar?]
  · rw [if_neg hquote]
  · simp [hslash]
  · simp [hslash]

theorem escaped_append_inj {encode : Char → List Char}
    {next? : List Char → Option (Char × List Char)} {close : Char}
    (hnext : ∀ c rest, next? (encode c ++ rest) = some (c, rest))
    (hclose : ∀ rest, next? (close :: rest) = none) {cs ds r s : List Char}
    (h : cs.flatMap encode ++ close :: r = ds.flatMap encode ++ close :: s) :
    cs = ds ∧ r = s := by
  -- Both texts have the same next character, so one ends just if the other does.
  induction cs generalizing ds with
  | nil =>
    cases ds with
    | nil => exact ⟨rfl, (List.cons.inj h).2⟩
    | cons d ds =>
      rw [List.flatMap_cons, List.append_assoc] at h
      have hread := congrArg next? h
      rw [hnext, List.flatMap_nil, List.nil_append, hclose] at hread
      contradiction
  | cons c cs ih =>
    rw [List.flatMap_cons, List.append_assoc] at h
    have hread := congrArg next? h
    rw [hnext] at hread
    cases ds with
    | nil =>
      rw [List.flatMap_nil, List.nil_append, hclose] at hread
      contradiction
    | cons d ds =>
      rw [List.flatMap_cons, List.append_assoc, hnext] at hread
      obtain ⟨rfl, hrest⟩ := Prod.mk.inj (Option.some.inj hread)
      obtain ⟨rfl, rfl⟩ := ih hrest
      exact ⟨rfl, rfl⟩

theorem jsonString_append_inj {a b : String} {r s : List Char}
    (h : jsonString a ++ r = jsonString b ++ s) : a = b ∧ r = s := by
  simp only [jsonString, List.cons_append, List.append_assoc, List.cons.injEq,
    true_and] at h
  obtain ⟨hab, rfl⟩ := escaped_append_inj nextJsonChar_jsonChar (fun _ => rfl) h
  exact ⟨String.toList_inj.1 hab, rfl⟩

def isNumeric (c : Char) : Bool := c.isDigit || c == '-'

def Stops (rest : List Char) : Prop := ∀ c ∈ rest.head?, isNumeric c = false

theorem stops_cons {c : Char} (h : isNumeric c = false) (rest : List Char) : Stops (c :: rest) := by
  intro d hd
  cases hd
  exact h

theorem isNumeric_of_mem_intChars {c : Char} {n : Int} (h : c ∈ intChars n) :
    isNumeric c = true := by
  rcases isDigit_of_mem_intChars h with rfl | hd
  · rfl
  · rw [isNumeric, hd, Bool.true_or]

theorem exists_numeric (n : Int) : ∃ c cs, intChars n = c :: cs ∧ isNumeric c = true := by
  cases hn : intChars n with
  | nil =>
    obtain ⟨c, cs, hc, -⟩ := exists_natChars_eq_cons n.natAbs
    rw [intChars_eq, hc] at hn
    simp at hn
  | cons c cs =>
    exact ⟨c, cs, rfl, isNumeric_of_mem_intChars (hn ▸ List.mem_cons_self)⟩

theorem intChars_append_inj {m n : Int} {r s : List Char} (hr : Stops r) (hs : Stops s)
    (h : intChars m ++ r = intChars n ++ s) : m = n ∧ r = s := by
  obtain ⟨hm, hr⟩ := Scan.takeWhile_dropWhile_run (fun _ => isNumeric_of_mem_intChars) hr
  obtain ⟨hn, hs⟩ := Scan.takeWhile_dropWhile_run (fun _ => isNumeric_of_mem_intChars) hs
  have hmn : intChars m = intChars n := by rw [← hm, h, hn]
  refine ⟨?_, by rw [← hr, h, hs]⟩
  have hread := integerOfChars?_intChars m
  rw [hmn, integerOfChars?_intChars] at hread
  exact (Option.some.inj hread).symm

section Items

variable {α : Type} {Writes : α → List Char → Prop}

/-- Where the text of an item is at the front, no other item is, and the item ends there. -/
def ReadsBack (Writes : α → List Char → Prop) (a : α) : Prop :=
  ∀ b t u r s, Writes a t → Writes b u → Stops r → Stops s → t ++ r = u ++ s → a = b ∧ r = s

theorem commaSeparated_cons (t : List Char) (ts : List (List Char)) :
    commaSeparated (t :: ts) = t ++ ts.flatMap fun u => ',' :: ' ' :: u := by
  induction ts generalizing t with
  | nil => simp [commaSeparated]
  | cons u ts ih => simp [commaSeparated, ih]

theorem exists_texts {as : List α} (h : ∀ a ∈ as, ∃ t, Writes a t) :
    ∃ ts, List.Forall₂ Writes as ts := by
  induction as with
  | nil => exact ⟨[], .nil⟩
  | cons a as ih =>
    obtain ⟨⟨t, ht⟩, has⟩ := List.forall_mem_cons.1 h
    obtain ⟨ts, hts⟩ := ih has
    exact ⟨t :: ts, .cons ht hts⟩

theorem forall_and_exists_texts_iff {P : α → Prop} {as : List α} {t : List Char}
    {text : List (List Char) → List Char} :
    ((∀ a ∈ as, P a) ∧ ∃ ts, List.Forall₂ Writes as ts ∧ text ts = t) ↔
      ∃ ts, List.Forall₂ (fun a u => P a ∧ Writes a u) as ts ∧ t = text ts := by
  simp only [List.forall₂_and_left, and_assoc, exists_and_left, @eq_comm _ t]

variable {close : Char} {as bs : List α} {ts us : List (List Char)} {r s : List Char}

theorem stops_items (hclose : isNumeric close = false) (ts : List (List Char)) (r : List Char) :
    Stops ((ts.flatMap fun u => ',' :: ' ' :: u) ++ close :: r) := by
  cases ts with
  | nil => exact stops_cons hclose r
  | cons t ts => exact stops_cons rfl _

theorem furtherItems_inj (hclose : isNumeric close = false) (hcomma : close ≠ ',')
    (has : ∀ a ∈ as, ReadsBack Writes a) (hts : List.Forall₂ Writes as ts)
    (hus : List.Forall₂ Writes bs us)
    (h : (ts.flatMap fun u => ',' :: ' ' :: u) ++ close :: r =
      (us.flatMap fun u => ',' :: ' ' :: u) ++ close :: s) : as = bs ∧ r = s := by
  induction hts generalizing bs us with
  | nil =>
    cases hus with
    | nil => exact ⟨rfl, (List.cons.inj h).2⟩
    | cons => exact absurd (List.cons.inj h).1 hcomma
  | cons ha hts ih =>
    cases hus with
    | nil => exact absurd (List.cons.inj h).1.symm hcomma
    | cons hb hus =>
      obtain ⟨hread, hrest⟩ := List.forall_mem_cons.1 has
      simp only [List.flatMap_cons, List.cons_append, List.append_assoc, List.cons.injEq,
        true_and] at h
      obtain ⟨rfl, h⟩ := hread _ _ _ _ _ ha hb (stops_items hclose _ r) (stops_items hclose _ s) h
      obtain ⟨rfl, rfl⟩ := ih hrest hus h
      exact ⟨rfl, rfl⟩

theorem commaSeparated_inj (hclose : isNumeric close = false) (hcomma : close ≠ ',')
    (hbegin : ∀ a t, Writes a t → ∃ c cs, t = c :: cs ∧ c ≠ close)
    (has : ∀ a ∈ as, ReadsBack Writes a) (hts : List.Forall₂ Writes as ts)
    (hus : List.Forall₂ Writes bs us)
    (h : commaSeparated ts ++ close :: r = commaSeparated us ++ close :: s) : as = bs ∧ r = s := by
  cases hts with
  | nil =>
    cases hus with
    | nil => exact ⟨rfl, (List.cons.inj h).2⟩
    | cons hb hus =>
      obtain ⟨c, cs, rfl, hne⟩ := hbegin _ _ hb
      rw [commaSeparated_cons] at h
      exact absurd (List.cons.inj h).1.symm hne
  | cons ha hts =>
    cases hus with
    | nil =>
      obtain ⟨c, cs, rfl, hne⟩ := hbegin _ _ ha
      rw [commaSeparated_cons] at h
      exact absurd (List.cons.inj h).1 hne
    | cons hb hus =>
      obtain ⟨hread, hrest⟩ := List.forall_mem_cons.1 has
      rw [commaSeparated_cons, commaSeparated_cons, List.append_assoc, List.append_assoc] at h
      obtain ⟨rfl, h⟩ := hread _ _ _ _ _ ha hb (stops_items hclose _ r) (stops_items hclose _ s) h
      obtain ⟨rfl, rfl⟩ := furtherItems_inj hclose hcomma hrest hts hus h
      exact ⟨rfl, rfl⟩

end Items

inductive JsonShape where
  | null
  | bool (b : Bool)
  | number
  | string
  | list
  | dict

def JsonShape.ofChar? (c : Char) : Option JsonShape :=
  if isNumeric c then some .number
  else match c with
    | 'n' => some .null
    | 't' => some (.bool true)
    | 'f' => some (.bool false)
    | '"' => some .string
    | '[' => some .list
    | '\x7b' => some .dict
    | _ => none

def jsonShape : Value → JsonShape
  | .bool b => .bool b
  | .int _ => .number
  | .str _ => .string
  | .list _ => .list
  | .dict _ => .dict
  | _ => .null

def WritesJson (v : Value) (t : List Char) : Prop := v.IsJson ∧ v.jsonChars = .ok t

def WritesEntry (e : Value × Value) (t : List Char) : Prop :=
  ((∃ k, e.1 = .str k) ∧ e.2.IsJson) ∧
    ∃ k u, e.1.jsonKey = .ok k ∧ e.2.jsonChars = .ok u ∧ t = jsonString k ++ ':' :: ' ' :: u

theorem bind_eq_ok_iff {ε β γ : Type} {x : Except ε β} {f : β → Except ε γ} {c : γ} :
    x >>= f = .ok c ↔ ∃ b, x = .ok b ∧ f b = .ok c := by
  cases x with
  | error e => simp [bind, Except.bind]
  | ok b => simp [bind, Except.bind]

theorem jsonItems_eq_ok_iff {items : List Value} {ts : List (List Char)} :
    jsonItems items = .ok ts ↔ List.Forall₂ (fun v t => v.jsonChars = .ok t) items ts := by
  induction items generalizing ts with
  | nil => simp [jsonItems, eq_comm]
  | cons v items ih =>
    simp only [jsonItems, bind_eq_ok_iff, ih, List.forall₂_cons_left_iff, pure, Except.pure,
      Except.ok.injEq]
    constructor
    · rintro ⟨t, ht, us, hus, rfl⟩
      exact ⟨t, us, ht, hus, rfl⟩
    · rintro ⟨t, us, ht, hus, rfl⟩
      exact ⟨t, ht, us, hus, rfl⟩

theorem jsonEntries_eq_ok_iff {entries : List (Value × Value)} {ts : List (List Char)} :
    jsonEntries entries = .ok ts ↔
      List.Forall₂ (fun e t => ∃ k u, e.1.jsonKey = .ok k ∧ e.2.jsonChars = .ok u ∧
        t = jsonString k ++ ':' :: ' ' :: u) entries ts := by
  induction entries generalizing ts with
  | nil => simp [jsonEntries, eq_comm]
  | cons e entries ih =>
    simp only [jsonEntries, bind_eq_ok_iff, ih, List.forall₂_cons_left_iff, pure, Except.pure,
      Except.ok.injEq]
    constructor
    · rintro ⟨k, hk, u, hu, us, hus, rfl⟩
      exact ⟨_, us, ⟨k, u, hk, hu, rfl⟩, hus, rfl⟩
    · rintro ⟨t, us, ⟨k, u, hk, hu, rfl⟩, hus, rfl⟩
      exact ⟨k, hk, u, hu, us, hus, rfl⟩

theorem writesJson_list_iff {items : List Value} {t : List Char} : WritesJson (.list items) t ↔
    ∃ ts, List.Forall₂ WritesJson items ts ∧ t = '[' :: commaSeparated ts ++ [']'] := by
  have hjson : (Value.list items).IsJson ↔ ∀ v ∈ items, v.IsJson :=
    ⟨fun h => by cases h; assumption, .list⟩
  rw [WritesJson, hjson, jsonChars]
  simp only [bind_eq_ok_iff, jsonItems_eq_ok_iff, pure, Except.pure, Except.ok.injEq]
  exact forall_and_exists_texts_iff

theorem writesJson_dict_iff {entries : List (Value × Value)} {t : List Char} :
    WritesJson (.dict entries) t ↔
      ∃ ts, List.Forall₂ WritesEntry entries ts ∧
        t = '\x7b' :: commaSeparated ts ++ ['\x7d'] := by
  have hjson : (Value.dict entries).IsJson ↔ ∀ e ∈ entries, (∃ k, e.1 = .str k) ∧ e.2.IsJson := by
    refine ⟨fun h => ?_, fun h => .dict (fun e he => (h e he).1) fun e he => (h e he).2⟩
    cases h with
    | dict hkeys hvalues => exact fun e he => ⟨hkeys e he, hvalues e he⟩
  rw [WritesJson, hjson, jsonChars]
  simp only [bind_eq_ok_iff, jsonEntries_eq_ok_iff, pure, Except.pure, Except.ok.injEq]
  exact forall_and_exists_texts_iff

theorem jsonChars_int_eq_ok_iff {n : Int} {t : List Char} :
    (int n).jsonChars = .ok t ↔ Number.hasText n = true ∧ t = intChars n := by
  rw [jsonChars]
  cases Number.hasText n <;> simp [eq_comm]

def WritesIf {β : Type} (bounded : Bool) (x : Except JsonError β) : Prop :=
  if bounded then ∃ b, x = .ok b else x = .error .overlongInteger

namespace WritesIf

variable {β γ : Type} {bounded bounded' : Bool} {x : Except JsonError β}
  {f : β → Except JsonError γ}

theorem ok (b : β) : WritesIf true (.ok b : Except JsonError β) := ⟨b, rfl⟩

theorem bind (hx : WritesIf bounded x) (hf : ∀ b, WritesIf bounded' (f b)) :
    WritesIf (bounded && bounded') (x >>= f) := by
  cases bounded with
  | false =>
    obtain rfl : x = .error .overlongInteger := hx
    rfl
  | true =>
    obtain ⟨b, rfl⟩ := hx
    exact hf b

theorem map (hx : WritesIf bounded x) (g : β → γ) :
    WritesIf bounded (x >>= fun b => .ok (g b)) := by
  have h := hx.bind fun b => ok (g b)
  rwa [Bool.and_true] at h

theorem exists_ok_iff (hx : WritesIf bounded x) : (∃ b, x = .ok b) ↔ bounded = true := by
  cases bounded with
  | true => exact ⟨fun _ => rfl, fun _ => hx⟩
  | false =>
    obtain rfl : x = .error .overlongInteger := hx
    simp

theorem error_eq {e : JsonError} (hx : WritesIf bounded x) (h : x = .error e) :
    e = .overlongInteger := by
  subst h
  cases bounded with
  | true =>
    obtain ⟨b, hb⟩ := hx
    contradiction
  | false => exact Except.error.inj hx

end WritesIf

theorem jsonItems_writesIf {items : List Value} (h : ∀ v ∈ items, WritesIf v.hasText v.jsonChars) :
    WritesIf (allHaveText items) (jsonItems items) := by
  induction items with
  | nil => exact .ok []
  | cons v items ih =>
    obtain ⟨hv, hitems⟩ := List.forall_mem_cons.1 h
    exact hv.bind fun t => (ih hitems).map (t :: ·)

theorem jsonEntries_writesIf {entries : List (Value × Value)}
    (hkeys : ∀ e ∈ entries, ∃ k, e.1 = .str k)
    (h : ∀ e ∈ entries, WritesIf e.2.hasText e.2.jsonChars) :
    WritesIf (entriesHaveText entries) (jsonEntries entries) := by
  induction entries with
  | nil => exact .ok []
  | cons e entries ih =>
    obtain ⟨key, v⟩ := e
    obtain ⟨⟨k, rfl⟩, hrest⟩ := List.forall_mem_cons.1 hkeys
    obtain ⟨hv, hentries⟩ := List.forall_mem_cons.1 h
    exact hv.bind fun t => (ih hrest hentries).map (_ :: ·)

theorem IsJson.writesIf {v : Value} (h : v.IsJson) : WritesIf v.hasText v.jsonChars := by
  induction h with
  | null | bool | str => exact .ok _
  | int n =>
    rw [hasText, jsonChars]
    cases Number.hasText n with
    | true => exact .ok _
    | false => rfl
  | list _ ih => exact (jsonItems_writesIf ih).map _
  | dict hkeys _ ih => exact (jsonEntries_writesIf hkeys ih).map _

theorem WritesJson.shape {v : Value} {t : List Char} (h : WritesJson v t) :
    ∃ c cs, t = c :: cs ∧ JsonShape.ofChar? c = some v.jsonShape := by
  obtain ⟨hv, ht⟩ := h
  cases hv with
  | null =>
    cases ht
    exact ⟨_, _, rfl, rfl⟩
  | bool b =>
    cases ht
    cases b <;> exact ⟨_, _, rfl, rfl⟩
  | int n =>
    obtain ⟨-, rfl⟩ := jsonChars_int_eq_ok_iff.1 ht
    obtain ⟨c, cs, hn, hc⟩ := exists_numeric n
    exact ⟨c, cs, hn, if_pos hc⟩
  | str s =>
    cases ht
    exact ⟨_, _, rfl, rfl⟩
  | list hitems =>
    obtain ⟨ts, -, rfl⟩ := writesJson_list_iff.1 ⟨.list hitems, ht⟩
    exact ⟨_, _, rfl, rfl⟩
  | dict hkeys hvalues =>
    obtain ⟨ts, -, rfl⟩ := writesJson_dict_iff.1 ⟨.dict hkeys hvalues, ht⟩
    exact ⟨_, _, rfl, rfl⟩

theorem WritesJson.ne_bracket {v : Value} {t : List Char} (h : WritesJson v t) :
    ∃ c cs, t = c :: cs ∧ c ≠ ']' := by
  obtain ⟨c, cs, rfl, hc⟩ := h.shape
  refine ⟨c, cs, rfl, ?_⟩
  rintro rfl
  contradiction

theorem WritesEntry.ne_brace {e : Value × Value} {t : List Char} (h : WritesEntry e t) :
    ∃ c cs, t = c :: cs ∧ c ≠ '\x7d' := by
  obtain ⟨-, k, u, -, -, rfl⟩ := h
  exact ⟨'"', _, rfl, by decide⟩

theorem readsBack_entry {e : Value × Value} (h : ReadsBack WritesJson e.2) :
    ReadsBack WritesEntry e := by
  intro d t t' r s he hd hr hs heq
  obtain ⟨⟨⟨k, hk⟩, hjson⟩, _, u, hkey, hu, rfl⟩ := he
  obtain ⟨⟨⟨l, hl⟩, hjson'⟩, _, u', hkey', hu', rfl⟩ := hd
  rw [hk, jsonKey] at hkey
  rw [hl, jsonKey] at hkey'
  cases hkey
  cases hkey'
  rw [List.append_assoc, List.append_assoc] at heq
  obtain ⟨rfl, hrest⟩ := jsonString_append_inj heq
  simp only [List.cons_append, List.cons.injEq, true_and] at hrest
  obtain ⟨hvalue, rfl⟩ := h _ _ _ _ _ ⟨hjson, hu⟩ ⟨hjson', hu'⟩ hr hs hrest
  exact ⟨Prod.ext (hk.trans hl.symm) hvalue, rfl⟩

theorem WritesJson.shape_eq {v w : Value} {t u r s : List Char} (hv : WritesJson v t)
    (hw : WritesJson w u) (h : t ++ r = u ++ s) : v.jsonShape = w.jsonShape := by
  obtain ⟨c, cs, rfl, hc⟩ := hv.shape
  obtain ⟨d, ds, rfl, hd⟩ := hw.shape
  obtain ⟨rfl, -⟩ := List.cons.inj h
  exact Option.some.inj (hc.symm.trans hd)

/-- JSON text can be read in one way only. -/
theorem IsJson.readsBack {v : Value} (h : v.IsJson) : ReadsBack WritesJson v := by
  induction h
  -- The first characters agree, so `w` is of the same kind as the value that is read back.
  all_goals
    intro w t u r s hv hw hr hs heq
    have hshape := hv.shape_eq hw heq
    have hjson := hw.1
  case null =>
    cases hjson with
    | null =>
      cases hv.2
      cases hw.2
      exact ⟨rfl, List.append_cancel_left heq⟩
    | _ => contradiction
  case bool b =>
    cases hjson with
    | bool =>
      cases hshape
      cases hv.2
      cases hw.2
      exact ⟨rfl, List.append_cancel_left heq⟩
    | _ => contradiction
  case int n =>
    cases hjson with
    | int =>
      obtain ⟨-, rfl⟩ := jsonChars_int_eq_ok_iff.1 hv.2
      obtain ⟨-, rfl⟩ := jsonChars_int_eq_ok_iff.1 hw.2
      obtain ⟨rfl, hrest⟩ := intChars_append_inj hr hs heq
      exact ⟨rfl, hrest⟩
    | _ => contradiction
  case str a =>
    cases hjson with
    | str =>
      cases hv.2
      cases hw.2
      obtain ⟨rfl, hrest⟩ := jsonString_append_inj heq
      exact ⟨rfl, hrest⟩
    | _ => contradiction
  case list ih =>
    cases hjson with
    | list =>
      obtain ⟨ts, hts, rfl⟩ := writesJson_list_iff.1 hv
      obtain ⟨us, hus, rfl⟩ := writesJson_list_iff.1 hw
      simp only [List.cons_append, List.append_assoc, List.cons.injEq, true_and] at heq
      obtain ⟨rfl, hrest⟩ := commaSeparated_inj (by decide) (by decide) (fun _ _ h => h.ne_bracket)
        ih hts hus heq
      exact ⟨rfl, hrest⟩
    | _ => contradiction
  case dict ih =>
    cases hjson with
    | dict =>
      obtain ⟨ts, hts, rfl⟩ := writesJson_dict_iff.1 hv
      obtain ⟨us, hus, rfl⟩ := writesJson_dict_iff.1 hw
      simp only [List.cons_append, List.append_assoc, List.cons.injEq, true_and] at heq
      obtain ⟨rfl, hrest⟩ := commaSeparated_inj (by decide) (by decide) (fun _ _ h => h.ne_brace)
        (fun e he => readsBack_entry (ih e he)) hts hus heq
      exact ⟨rfl, hrest⟩
    | _ => contradiction

theorem IsJson.json_writesIf {v : Value} (h : v.IsJson) : WritesIf v.hasText v.json := by
  have hmap : v.json = v.jsonChars >>= fun t => .ok (String.ofList t) := by
    unfold json
    cases v.jsonChars <;> rfl
  rw [hmap]
  exact h.writesIf.map _

theorem exists_jsonChars {v : Value} {text : String} (h : v.json = .ok text) :
    ∃ t, v.jsonChars = .ok t ∧ String.ofList t = text := by
  unfold json at h
  cases ht : v.jsonChars with
  | error e =>
    rw [ht] at h
    contradiction
  | ok t =>
    rw [ht] at h
    exact ⟨t, rfl, Except.ok.inj h⟩

theorem IsJson.json_inj {v w : Value} (hv : v.IsJson) (hw : w.IsJson) {text : String}
    (hvtext : v.json = .ok text) (hwtext : w.json = .ok text) : v = w := by
  obtain ⟨t, ht, rfl⟩ := exists_jsonChars hvtext
  obtain ⟨u, hu, htu⟩ := exists_jsonChars hwtext
  obtain rfl : t = u := String.ofList_injective htu.symm
  have hend : Stops [] := by
    intro c hc
    contradiction
  exact (hv.readsBack w t t [] [] ⟨hv, ht⟩ ⟨hw, hu⟩ hend hend rfl).1

end Value

end MessageCatalog
