import MessageCatalog.Phrase.Basic
import MessageCatalog.Proofs.Lexemes

/-!
# Written phrases

How a phrase is written down without blanks. Strings may stand between quotes of either kind.
Outside of expressions every part is an interpolation, but a string may also be plain text by
itself where no plain text comes right before it: two such texts would be read as one.
-/
namespace MessageCatalog
open Scan

inductive Value.IsWritable : Value → Prop where
  | str (s : String) : IsWritable (.str s)
  | int (n : Int) : IsWritable (.int n)
  | bool (b : Bool) : IsWritable (.bool b)
  | null : IsWritable .null
  | undefined : IsWritable .undefined

/-- Expressions whose names can be written down and whose objects have distinct keys, with some
values in their literals. -/
inductive Expr.WellFormed (Literal : Value → Prop) : Expr → Prop where
  | literal {v : Value} : Literal v → WellFormed Literal (.literal v)
  | identifier {name : String} : IsName name → WellFormed Literal (.identifier name)
  | call {callee : String} {es : List Expr} : IsName callee →
      (∀ e ∈ es, WellFormed Literal e) → WellFormed Literal (.call callee es)
  | array {es : List Expr} : (∀ e ∈ es, WellFormed Literal e) → WellFormed Literal (.array es)
  | object {ps : List (String × Expr)} : (ps.map Prod.fst).Nodup →
      (∀ p ∈ ps, IsName p.1) → (∀ p ∈ ps, WellFormed Literal p.2) → WellFormed Literal (.object ps)
  | template {es : List Expr} : (∀ e ∈ es, WellFormed Literal e) → WellFormed Literal (.template es)

mutual

def Expr.integers : Expr → List Int
  | .literal (.int n) => [n]
  | .literal _ | .identifier _ | .unknown _ => []
  | .call _ es | .array es | .template es => integersAll es
  | .object ps => integersOf ps

def Expr.integersAll : List Expr → List Int
  | [] => []
  | e :: es => integers e ++ integersAll es

def Expr.integersOf : List (String × Expr) → List Int
  | [] => []
  | (_, e) :: ps => integers e ++ integersOf ps

end

def Phrase.integers (p : Phrase) : List Int := Expr.integersAll p

inductive WritesValue : Value → List Char → Prop where
  | str {quote : Char} (s : String) : IsQuote quote →
      WritesValue (.str s) (quote :: (escaped quote s.toList ++ [quote]))
  | int (n : Int) : WritesValue (.int n) (Number.intChars n)
  | true : WritesValue (.bool true) "true".toList
  | false : WritesValue (.bool false) "false".toList
  | null : WritesValue .null "null".toList
  | undefined : WritesValue .undefined "undefined".toList

mutual

/-- The ways to write an expression. -/
inductive Writes : Expr → List Char → Prop where
  | literal {v : Value} {cs : List Char} : WritesValue v cs → Writes (.literal v) cs
  | identifier (name : String) : Writes (.identifier name) name.toList
  | call (callee : String) {es : List Expr} {cs : List Char} : WritesItems es cs →
      Writes (.call callee es) (callee.toList ++ '(' :: (cs ++ [')']))
  | array {es : List Expr} {cs : List Char} : WritesItems es cs →
      Writes (.array es) ('[' :: (cs ++ [']']))
  | object {ps : List (String × Expr)} {cs : List Char} : WritesProperties ps cs →
      Writes (.object ps) ('\x7b' :: (cs ++ ['\x7d']))
  | template {es : List Expr} {cs : List Char} : WritesParts true false es cs →
      Writes (.template es) ('`' :: (cs ++ ['`']))

inductive WritesItems : List Expr → List Char → Prop where
  | nil : WritesItems [] []
  | one {e : Expr} {cs : List Char} : Writes e cs → WritesItems [e] cs
  | cons {e d : Expr} {es : List Expr} {cs ds : List Char} : Writes e cs → WritesItems (d :: es) ds →
      WritesItems (e :: d :: es) (cs ++ ',' :: ds)

inductive WritesProperties : List (String × Expr) → List Char → Prop where
  | nil : WritesProperties [] []
  | one (key : String) {e : Expr} {cs : List Char} : Writes e cs →
      WritesProperties [(key, e)] (key.toList ++ ':' :: cs)
  | cons (key : String) {e : Expr} {p : String × Expr} {ps : List (String × Expr)}
      {cs ds : List Char} : Writes e cs → WritesProperties (p :: ps) ds →
      WritesProperties ((key, e) :: p :: ps) (key.toList ++ ':' :: (cs ++ ',' :: ds))

inductive WritesParts : (inTemplate afterText : Bool) → List Expr → List Char → Prop where
  | nil (inTemplate afterText : Bool) : WritesParts inTemplate afterText [] []
  | interpolation {inTemplate : Bool} (afterText : Bool) {e : Expr} {es : List Expr}
      {cs ds : List Char} : Writes e cs → WritesParts inTemplate false es ds →
      WritesParts inTemplate afterText (e :: es) ('$' :: '\x7b' :: (cs ++ '\x7d' :: ds))
  | plain {inTemplate : Bool} {s : String} {es : List Expr} {cs : List Char} :
      IsPlain inTemplate s.toList → WritesParts inTemplate true es cs →
      WritesParts inTemplate false (.text s :: es) (s.toList ++ cs)

end

def Phrase.WellFormed (p : Phrase) : Prop := ∀ e ∈ p, e.WellFormed Value.IsWritable

def Phrase.IsWrittenAs (p : Phrase) (text : String) : Prop := WritesParts false false p text.toList

theorem exists_writesValue {v : Value} (h : v.IsWritable) : ∃ cs, WritesValue v cs := by
  cases h with
  | str s => exact ⟨_, .str s (.inl rfl)⟩
  | int n => exact ⟨_, .int n⟩
  | bool b =>
    cases b with
    | true => exact ⟨_, .true⟩
    | false => exact ⟨_, .false⟩
  | null => exact ⟨_, .null⟩
  | undefined => exact ⟨_, .undefined⟩

theorem exists_writesItems {es : List Expr} (h : ∀ e ∈ es, ∃ cs, Writes e cs) :
    ∃ cs, WritesItems es cs := by
  induction es with
  | nil => exact ⟨[], .nil⟩
  | cons e es ih =>
    obtain ⟨cs, hcs⟩ := h e List.mem_cons_self
    obtain ⟨ds, hds⟩ := ih fun d hd => h d (List.mem_cons_of_mem e hd)
    cases es with
    | nil => exact ⟨cs, .one hcs⟩
    | cons d es => exact ⟨_, .cons hcs hds⟩

theorem exists_writesProperties {ps : List (String × Expr)} (h : ∀ p ∈ ps, ∃ cs, Writes p.2 cs) :
    ∃ cs, WritesProperties ps cs := by
  induction ps with
  | nil => exact ⟨[], .nil⟩
  | cons p ps ih =>
    obtain ⟨cs, hcs⟩ := h p List.mem_cons_self
    obtain ⟨ds, hds⟩ := ih fun q hq => h q (List.mem_cons_of_mem p hq)
    cases ps with
    | nil => exact ⟨_, .one p.1 hcs⟩
    | cons q ps => exact ⟨_, .cons p.1 hcs hds⟩

theorem exists_writesParts {es : List Expr} (inTemplate : Bool) (h : ∀ e ∈ es, ∃ cs, Writes e cs) :
    ∃ cs, WritesParts inTemplate false es cs := by
  induction es with
  | nil => exact ⟨[], .nil _ _⟩
  | cons e es ih =>
    obtain ⟨cs, hcs⟩ := h e List.mem_cons_self
    obtain ⟨ds, hds⟩ := ih fun d hd => h d (List.mem_cons_of_mem e hd)
    exact ⟨_, .interpolation false hcs hds⟩

theorem Expr.WellFormed.exists_writes {e : Expr} (h : e.WellFormed Value.IsWritable) :
    ∃ cs, Writes e cs := by
  induction h with
  | literal hv =>
    obtain ⟨cs, hcs⟩ := exists_writesValue hv
    exact ⟨cs, .literal hcs⟩
  | identifier hn => exact ⟨_, .identifier _⟩
  | call hn hes ih =>
    obtain ⟨cs, hcs⟩ := exists_writesItems ih
    exact ⟨_, .call _ hcs⟩
  | array hes ih =>
    obtain ⟨cs, hcs⟩ := exists_writesItems ih
    exact ⟨_, .array hcs⟩
  | object hk hn hps ih =>
    obtain ⟨cs, hcs⟩ := exists_writesProperties ih
    exact ⟨_, .object hcs⟩
  | template hes ih =>
    obtain ⟨cs, hcs⟩ := exists_writesParts true ih
    exact ⟨_, .template hcs⟩

theorem Phrase.WellFormed.exists_text {p : Phrase} (h : p.WellFormed) :
    ∃ text, p.IsWrittenAs text := by
  obtain ⟨cs, hcs⟩ := exists_writesParts false fun e he => (h e he).exists_writes
  refine ⟨String.ofList cs, ?_⟩
  rw [IsWrittenAs, String.toList_ofList]
  exact hcs

end MessageCatalog
