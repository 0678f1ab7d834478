import MessageCatalog.Proofs.OpenConstructs
import MessageCatalog.Proofs.Spelling

/-!
# Reading written phrases

A phrase that is written down is read back as it was, unless an integer in it is beyond the digit
limit: then the first of these is refused. Scanning and assembling are followed together: the
written form of an expression takes an assembly that awaits one to the assembly that has been
handed this expression, with the same constructs open and the text after it left. The scanner goes
on to the end even where the assembly stops, so it is followed as if nothing had been refused.
-/
namespace MessageCatalog
open Scan

def refusalOf (ns : List Int) : Option ParseError :=
  (ns.find? (!Number.hasText ·)).map fun n => .malformedNumber (Number.intText n)

theorem refusalOf_append (ms ns : List Int) :
    refusalOf (ms ++ ns) = (refusalOf ms).or (refusalOf ns) := by
  rw [refusalOf, List.find?_append, Option.map_or]
  rfl

theorem lexeme?_of_expressionLexeme {opener : Opener} {opened : List Opener} {cs : List Char}
    {l : Lexeme} (ho : opener ≠ .template) (hl : expressionLexeme? opener cs = some l) :
    lexeme? (opener :: opened) (skip (opener :: opened) cs) = some l := by
  have hb := dropBlanks_of_expressionLexeme hl
  cases opener with
  | template => contradiction
  | _ => exact (congrArg _ hb).trans hl

def Assembly.unless (s : Assembly) : Option ParseError → Except ParseError Assembly
  | none => .ok s
  | some e => .error e

/-- Reading leads from a place of a text and an assembly to others, wherever the text begins, but
for what is refused on the way. -/
def ReadsUnless (refusal : Option ParseError) (opened : List Opener) (cs : List Char) (s : Assembly)
    (opened' : List Opener) (rest : List Char) (s' : Assembly) : Prop :=
  ∀ position, ∃ position' ts,
    Emits ⟨opened, position, cs⟩ ts ⟨opened', position', rest⟩ ∧ s.run ts = s'.unless refusal

abbrev ReadsTo := ReadsUnless none

namespace ReadsUnless

variable {opened opened' opened'' : List Opener} {cs ds rest : List Char} {s s' s'' : Assembly}
  {refusal refusal' : Option ParseError}

theorem refl (opened : List Opener) (cs : List Char) (s : Assembly) :
    ReadsTo opened cs s opened cs s :=
  fun position => ⟨position, [], .stay _, rfl⟩

theorem trans (h : ReadsUnless refusal opened cs s opened' ds s')
    (h' : ReadsUnless refusal' opened' ds s' opened'' rest s'') :
    ReadsUnless (refusal.or refusal') opened cs s opened'' rest s'' := by
  intro position
  obtain ⟨position', ts, hts, hrun⟩ := h position
  obtain ⟨position'', us, hus, hrun'⟩ := h' position'
  refine ⟨position'', ts ++ us, hts.append hus, ?_⟩
  cases refusal with
  | none => rw [Assembly.run_append_ok hrun, hrun', Option.none_or]
  | some e =>
    rw [Assembly.run_append, hrun]
    rfl

theorem transTo (h : ReadsUnless refusal opened cs s opened' ds s')
    (h' : ReadsTo opened' ds s' opened'' rest s'') :
    ReadsUnless refusal opened cs s opened'' rest s'' := by
  have hboth := h.trans h'
  rwa [Option.or_none] at hboth

theorem lexeme {l : Lexeme} {f : Nat → Assembly} (hl : lexeme? opened (skip opened cs) = some l)
    (hs : ∀ p, s.step ⟨l.kind, String.ofList l.value, p⟩ = .ok (f p))
    (hr : ∀ p, ReadsUnless refusal (openAfter opened l.kind) l.rest (f p) opened' rest s') :
    ReadsUnless refusal opened cs s opened' rest s' := by
  intro position
  have hn := State.next_of_lexeme (σ := ⟨opened, position, cs⟩) hl
  obtain ⟨position', ts, hts, hrun⟩ := hr _ _
  exact ⟨position', _ :: ts, .next hn hts, by rw [Assembly.run_cons_ok (hs _), hrun]⟩

theorem expression {opener : Opener} {l : Lexeme} {f : Nat → Assembly} (ho : opener ≠ .template)
    (hl : expressionLexeme? opener cs = some l)
    (hs : ∀ p, s.step ⟨l.kind, String.ofList l.value, p⟩ = .ok (f p))
    (hr : ∀ p,
      ReadsUnless refusal (openAfter (opener :: opened) l.kind) l.rest (f p) opened' rest s') :
    ReadsUnless refusal (opener :: opened) cs s opened' rest s' :=
  lexeme (lexeme?_of_expressionLexeme ho hl) hs hr

theorem delimiter {opener : Opener} {l : Lexeme} (ho : opener ≠ .template)
    (hl : expressionLexeme? opener cs = some l)
    (hs : ∀ p, s.step ⟨l.kind, String.ofList l.value, p⟩ = .ok s')
    (ha : openAfter (opener :: opened) l.kind = opened') :
    ReadsTo (opener :: opened) cs s opened' l.rest s' := by
  subst ha
  exact expression ho hl hs fun _ => refl _ _ _

theorem refused {opener : Opener} {l : Lexeme} {e : ParseError} (ho : opener ≠ .template)
    (hl : expressionLexeme? opener cs = some l)
    (hs : ∀ p, s.step ⟨l.kind, String.ofList l.value, p⟩ = .error e)
    (ha : openAfter (opener :: opened) l.kind = opened') (s' : Assembly) :
    ReadsUnless (some e) (opener :: opened) cs s opened' l.rest s' := by
  subst ha
  intro position
  have hn := State.next_of_lexeme (σ := ⟨opener :: opened, position, cs⟩)
    (lexeme?_of_expressionLexeme ho hl)
  refine ⟨_, [_], .next hn (.stay _), ?_⟩
  rw [Assembly.run, hs]
  rfl

end ReadsUnless

namespace TokenKind

def beginsExpression : TokenKind → Bool
  | .identifier | .functionCall | .bracketStart | .braceStart | .templateStart => true
  | kind => kind.isLiteral

end TokenKind

namespace Assembly

def Awaits (s : Assembly) : Prop :=
  ∀ t : Token, t.kind.beginsExpression = true → s.step t = s.expression t

theorem awaits_interpolation (s : Assembly) (p : Nat) : (s.push (.interpolation p none)).Awaits :=
  fun _ _ => rfl

theorem awaits_items (s : Assembly) (l : ItemList) (items : List Expr) (last : ListEnd) :
    (s.push (l.construct items last)).Awaits := by
  intro t ht
  have hcomma : t.kind ≠ .comma := by
    intro h
    rw [h] at ht
    contradiction
  have hcloser : t.kind ≠ l.closer := by
    intro h
    rw [h] at ht
    cases l <;> contradiction
  rw [step_items l rfl, if_neg hcomma, if_neg hcloser]

theorem awaits_property (s : Assembly) (p : Nat) (ps : List (String × Expr)) (key : String) :
    (s.push (.object p ps (some key))).Awaits :=
  fun _ _ => rfl

def AtText (s : Assembly) : Prop :=
  s.stack = [] ∨ ∃ p parts below, s.stack = .template p parts :: below

variable {s : Assembly} {t : Token}

theorem AtText.step_string (h : s.AtText) (ht : t.kind = .string) :
    s.step t = .ok (s.deliver (.text t.value)) := by
  rcases h with hs | ⟨p, parts, below, hs⟩ <;> simp [step, hs, textOr, ht]

theorem AtText.step_start (h : s.AtText) (ht : t.kind = .expressionStart) :
    s.step t = .ok (s.push (.interpolation t.position none)) := by
  rcases h with hs | ⟨p, parts, below, hs⟩ <;> simp [step, hs, textOr, ht]

theorem AtText.deliver (h : s.AtText) (e : Expr) : (s.deliver e).AtText := by
  rcases h with hs | ⟨p, parts, below, hs⟩
  · exact .inl (by simp [Assembly.deliver, hs])
  · exact .inr ⟨p, parts ++ [e], below, by simp [Assembly.deliver, update, hs]⟩

theorem foldl_deliver_start (es ps : List Expr) :
    es.foldl Assembly.deliver ⟨ps, []⟩ = ⟨ps ++ es, []⟩ := by
  induction es generalizing ps with
  | nil => simp
  | cons e es ih =>
    have hd : Assembly.deliver ⟨ps, []⟩ e = ⟨ps ++ [e], []⟩ := rfl
    rw [List.foldl_cons, hd, ih, List.append_assoc]
    rfl

theorem foldl_deliver_template (s : Assembly) (p : Nat) (es parts : List Expr) :
    es.foldl Assembly.deliver (s.push (.template p parts)) =
      s.push (.template p (parts ++ es)) := by
  induction es generalizing parts with
  | nil => simp
  | cons e es ih =>
    have hd : (s.push (.template p parts)).deliver e = s.push (.template p (parts ++ [e])) := rfl
    rw [List.foldl_cons, hd, ih, List.append_assoc]
    rfl

end Assembly

namespace ItemList

def opener : ItemList → Opener
  | .call .. => .call
  | .array _ => .bracket

def closing : ItemList → Char
  | .call .. => ')'
  | .array _ => ']'

theorem opener_ne_template (l : ItemList) : l.opener ≠ .template := by
  cases l <;> simp [opener]

theorem delimited_closing (l : ItemList) (rest : List Char) : Delimited (l.closing :: rest) := by
  refine ⟨l.closing, rest, rfl, ?_⟩
  cases l <;> simp [closing, delimiters]

end ItemList

theorem Assembly.deliver_push_property (s : Assembly) (p : Nat) {ps : List (String × Expr)}
    {key : String} (h : key ∉ ps.map Prod.fst) (e : Expr) :
    (s.push (.object p ps (some key))).deliver e = s.push (.object p (ps ++ [(key, e)]) none) := by
  rw [← Entries.put_of_not_mem h]
  rfl

theorem key_not_mem {key : String} {e : Expr} {ps qs : List (String × Expr)}
    (h : ((qs ++ (key, e) :: ps).map Prod.fst).Nodup) : key ∉ qs.map Prod.fst := by
  rw [List.map_append, List.nodup_append] at h
  intro hm
  exact h.2.2 key hm key (by simp) rfl

section Reading

variable {opener : Opener} {opened : List Opener} {cs rest : List Char} {s : Assembly}

theorem reads_comma (l : ItemList) (items : List Expr) :
    ReadsTo (l.opener :: opened) (',' :: rest) (s.push (l.construct items .item))
      (l.opener :: opened) rest (s.push (l.construct items .comma)) := by
  refine .delimiter (l := ⟨.comma, [','], rest⟩) l.opener_ne_template rfl (fun p => ?_) rfl
  rw [Assembly.step_items l rfl, if_pos rfl]
  rfl

theorem reads_closing (l : ItemList) (items : List Expr) (last : ListEnd) :
    ReadsTo (l.opener :: opened) (l.closing :: rest) (s.push (l.construct items last))
      opened rest (s.deliver (l.close (last.atClose items))) := by
  have hl : expressionLexeme? l.opener (l.closing :: rest) = some ⟨l.closer, [l.closing], rest⟩ := by
    cases l <;> rfl
  have hne : l.closer ≠ .comma := by cases l <;> simp [ItemList.closer]
  have ha : openAfter (l.opener :: opened) l.closer = opened := by cases l <;> rfl
  refine .delimiter l.opener_ne_template hl (fun p => ?_) ha
  rw [Assembly.step_items l rfl, if_neg hne, if_pos rfl]
  rfl

theorem reads_key {key : String} (hk : IsName key) (p : Nat) (ps : List (String × Expr)) :
    ReadsTo (.brace :: opened) (key.toList ++ ':' :: rest) (s.push (.object p ps none))
      (.brace :: opened) rest (s.push (.object p ps (some key))) := by
  refine .delimiter (by simp) (expressionLexeme_property hk) (fun _ => ?_) rfl
  rw [String.ofList_toList]
  rfl

theorem reads_separator (p : Nat) (ps : List (String × Expr)) :
    ReadsTo (.brace :: opened) (',' :: rest) (s.push (.object p ps none))
      (.brace :: opened) rest (s.push (.object p ps none)) :=
  .delimiter (l := ⟨.comma, [','], rest⟩) (by simp) rfl (fun _ => rfl) rfl

theorem reads_brace (p : Nat) (ps : List (String × Expr)) :
    ReadsTo (.brace :: opened) ('\x7d' :: rest) (s.push (.object p ps none))
      opened rest (s.deliver (.object ps)) :=
  .delimiter (l := ⟨.braceEnd, ['\x7d'], rest⟩) (by simp) rfl (fun _ => rfl) rfl

theorem reads_expressionEnd (p : Nat) (e : Expr) :
    ReadsTo (.interpolation :: opened) ('\x7d' :: rest) (s.push (.interpolation p (some e)))
      opened rest (s.deliver e) :=
  .delimiter (l := ⟨.expressionEnd, ['\x7d'], rest⟩) (by simp) rfl (fun _ => rfl) rfl

theorem reads_backtick (p : Nat) (es : List Expr) :
    ReadsTo (.template :: opened) ('`' :: rest) (s.push (.template p es))
      opened rest (s.deliver (.template es)) :=
  .lexeme (l := ⟨.templateEnd, ['`'], rest⟩) rfl (fun _ => rfl) fun _ => .refl _ _ _

theorem reads_property {refusal : Option ParseError} {key : String} {e : Expr} (hk : IsName key)
    {p : Nat} {ps : List (String × Expr)} (hfresh : key ∉ ps.map Prod.fst)
    (he : ReadsUnless refusal (.brace :: opened) cs (s.push (.object p ps (some key)))
      (.brace :: opened) rest ((s.push (.object p ps (some key))).deliver e)) :
    ReadsUnless refusal (.brace :: opened) (key.toList ++ ':' :: cs) (s.push (.object p ps none))
      (.brace :: opened) rest (s.push (.object p (ps ++ [(key, e)]) none)) := by
  rw [s.deliver_push_property p hfresh e] at he
  exact (reads_key hk p ps).trans he

theorem numberValue?_intChars (n : Int) :
    Assembly.numberValue? (String.ofList (Number.intChars n)) =
      if Number.hasText n then some (.int n) else none := by
  have hpoint : (Number.intChars n).contains '.' = false := by
    have hm : '.' ∉ Number.intChars n := by
      intro h
      rcases Number.isDigit_of_mem_intChars h with h | h <;> contradiction
    simpa using hm
  have hn := Number.readInteger?_intText n
  rw [Number.intText] at hn
  rw [Assembly.numberValue?, String.toList_ofList, hpoint, hn]
  cases Number.hasText n <;> rfl

theorem reads_leaf {l : Lexeme} {e : Expr} (ho : opener ≠ .template) (hs : s.Awaits)
    (hl : expressionLexeme? opener cs = some l) (hb : l.kind.beginsExpression = true)
    (hflat : l.kind.isFlat = true)
    (he : ∀ p, s.expression ⟨l.kind, String.ofList l.value, p⟩ = .ok (s.deliver e)) :
    ReadsTo (opener :: opened) cs s (opener :: opened) l.rest (s.deliver e) := by
  exact .delimiter ho hl (fun p => (hs _ hb).trans (he p)) (openAfter_of_isFlat hflat _)

theorem WritesValue.reads {v : Value} (h : WritesValue v cs) (ho : opener ≠ .template)
    (hs : s.Awaits) (hr : Delimited rest) :
    ReadsUnless (refusalOf (Expr.literal v).integers) (opener :: opened) (cs ++ rest) s
      (opener :: opened) rest (s.deliver (.literal v)) := by
  cases h with
  | str s hq =>
    rw [List.cons_append, List.append_assoc]
    refine reads_leaf ho hs (expressionLexeme_quoted hq) rfl rfl fun p => ?_
    rw [String.ofList_toList]
    rfl
  | int n =>
    rw [Expr.integers]
    cases hn : Number.hasText n with
    | true =>
      have hnone : refusalOf [n] = none := by simp [refusalOf, hn]
      rw [hnone]
      refine reads_leaf ho hs (expressionLexeme_integer hr) rfl rfl fun p => ?_
      simp [Assembly.expression, TokenKind.isLiteral, Assembly.literalValue, numberValue?_intChars,
        hn, Except.map]
    | false =>
      have hsome : refusalOf [n] = some (.malformedNumber (Number.intText n)) := by
        simp [refusalOf, hn]
      rw [hsome]
      refine .refused ho (expressionLexeme_integer hr) (fun p => ?_) (openAfter_of_isFlat rfl _) _
      rw [hs _ rfl]
      simp [Assembly.expression, TokenKind.isLiteral, Assembly.literalValue, numberValue?_intChars,
        hn, Except.map, Number.intText]
  | true =>
    have hk : keyword? "true".toList = some .boolean := rfl
    exact reads_leaf ho hs (expressionLexeme_keyword hk hr) rfl rfl fun p => rfl
  | false =>
    have hk : keyword? "false".toList = some .boolean := rfl
    exact reads_leaf ho hs (expressionLexeme_keyword hk hr) rfl rfl fun p => rfl
  | null =>
    have hk : keyword? "null".toList = some .null := rfl
    exact reads_leaf ho hs (expressionLexeme_keyword hk hr) rfl rfl fun p => rfl
  | undefined =>
    have hk : keyword? "undefined".toList = some .undefined := rfl
    exact reads_leaf ho hs (expressionLexeme_keyword hk hr) rfl rfl fun p => rfl

theorem WritesParts.endsText {inTemplate : Bool} {es : List Expr}
    (h : WritesParts inTemplate true es cs) (hr : EndsText inTemplate rest) :
    EndsText inTemplate (cs ++ rest) := by
  cases h with
  | nil => exact hr
  | interpolation => exact .inr rfl

-- By induction on the written form. The assembly around an expression stays arbitrary: all that is
-- needed of it is that it awaits an expression, so the enclosing constructs never come into play.
mutual

theorem Writes.reads {L : Value → Prop} {e : Expr} {cs : List Char} (h : Writes e cs)
    (hw : e.WellFormed L) {opener : Opener} {opened : List Opener} {rest : List Char} {s : Assembly}
    (ho : opener ≠ .template) (hs : s.Awaits) (hr : Delimited rest) :
    ReadsUnless (refusalOf e.integers) (opener :: opened) (cs ++ rest) s (opener :: opened) rest
      (s.deliver e) := by
  cases h with
  | literal h => exact h.reads ho hs hr
  | identifier name =>
    cases hw with
    | identifier hn =>
      refine reads_leaf ho hs (expressionLexeme_identifier hn hr) rfl rfl fun p => ?_
      rw [String.ofList_toList]
      rfl
  | @call callee es cs h =>
    cases hw with
    | call hn hes =>
      have hstep : ∀ p, s.step ⟨.functionCall, String.ofList callee.toList, p⟩ =
          .ok (s.push (.call p callee [] .opened)) := by
        intro p
        rw [String.ofList_toList]
        exact hs _ rfl
      rw [List.append_assoc, List.cons_append, List.append_assoc]
      exact .expression ho (expressionLexeme_call hn) hstep fun p =>
        h.reads hes (.call p callee) (by simp)
  | @array es cs h =>
    cases hw with
    | array hes =>
      rw [List.cons_append, List.append_assoc]
      exact .expression (l := ⟨.bracketStart, ['['], _⟩) ho rfl (fun p => hs _ rfl) fun p =>
        h.reads hes (.array p) (by simp)
  | @object ps cs h =>
    cases hw with
    | object hk hn hps =>
      rw [List.cons_append, List.append_assoc]
      exact .expression (l := ⟨.braceStart, ['\x7b'], _⟩) ho rfl (fun p => hs _ rfl) fun p =>
        h.reads hn hps hk
  | @template es cs h =>
    cases hw with
    | template hes =>
      rw [List.cons_append, List.append_assoc]
      refine .expression (l := ⟨.templateStart, ['`'], _⟩) ho rfl (fun p => hs _ rfl) fun p => ?_
      have hparts : ReadsUnless (refusalOf (Expr.integersAll es)) (.template :: opener :: opened)
          (cs ++ '`' :: rest) (s.push (.template p [])) (.template :: opener :: opened) ('`' :: rest)
          (s.push (.template p es)) := by
        have hd := s.foldl_deliver_template p es []
        rw [List.nil_append] at hd
        rw [← hd]
        exact h.reads hes (fun _ => rfl) (.inr rfl) (.inr ⟨p, [], _, rfl⟩)
      exact hparts.transTo (reads_backtick p es)

theorem WritesItems.reads {L : Value → Prop} {es : List Expr} {cs : List Char}
    (h : WritesItems es cs) (hw : ∀ e ∈ es, e.WellFormed L) (l : ItemList) {opened : List Opener}
    {rest : List Char} {s : Assembly} {items : List Expr} {last : ListEnd}
    (hlast : last = .comma → es ≠ []) :
    ReadsUnless (refusalOf (Expr.integersAll es)) (l.opener :: opened) (cs ++ l.closing :: rest)
      (s.push (l.construct items last)) opened rest (s.deliver (l.close (items ++ es))) := by
  have hs := s.awaits_items l items last
  cases h with
  | nil =>
    -- Nothing is left out at the end: the list was just opened or ends with an item.
    have hclose : last.atClose items = items := by
      cases last with
      | comma => exact absurd rfl (hlast rfl)
      | _ => rfl
    have h : ReadsTo (l.opener :: opened) (l.closing :: rest) (s.push (l.construct items last))
        opened rest (s.deliver (l.close items)) := by
      have h := @reads_closing opened rest s l items last
      rwa [hclose] at h
    rw [List.append_nil]
    exact h
  | @one e cs h =>
    have he : ReadsUnless (refusalOf e.integers) (l.opener :: opened) (cs ++ l.closing :: rest)
        (s.push (l.construct items last)) (l.opener :: opened) (l.closing :: rest)
        (s.push (l.construct (items ++ [e]) .item)) := by
      rw [← Assembly.deliver_push_items l items last e]
      exact h.reads (hw e List.mem_cons_self) l.opener_ne_template hs (l.delimited_closing rest)
    rw [Expr.integersAll, Expr.integersAll, List.append_nil]
    exact he.transTo (reads_closing l (items ++ [e]) .item)
  | @cons e d es cs ds h hes =>
    have he : ReadsUnless (refusalOf e.integers) (l.opener :: opened)
        (cs ++ ',' :: (ds ++ l.closing :: rest)) (s.push (l.construct items last))
        (l.opener :: opened) (',' :: (ds ++ l.closing :: rest))
        (s.push (l.construct (items ++ [e]) .item)) := by
      rw [← Assembly.deliver_push_items l items last e]
      exact h.reads (hw e List.mem_cons_self) l.opener_ne_template hs ⟨',', _, rfl, by simp [delimiters]⟩
    have hitems : ReadsUnless (refusalOf (Expr.integersAll (d :: es))) (l.opener :: opened)
        (ds ++ l.closing :: rest) (s.push (l.construct (items ++ [e]) .comma)) opened rest
        (s.deliver (l.close (items ++ [e] ++ d :: es))) :=
      hes.reads (fun d hd => hw d (List.mem_cons_of_mem e hd)) l (by simp)
    rw [List.append_assoc] at hitems ⊢
    rw [Expr.integersAll, refusalOf_append]
    exact (he.transTo (reads_comma l (items ++ [e]))).trans hitems

theorem WritesProperties.reads {L : Value → Prop} {ps : List (String × Expr)} {cs : List Char}
    (h : WritesProperties ps cs) (hn : ∀ p ∈ ps, IsName p.1) (hw : ∀ p ∈ ps, p.2.WellFormed L)
    {opened : List Opener} {rest : List Char} {s : Assembly} {p : Nat} {qs : List (String × Expr)}
    (hk : ((qs ++ ps).map Prod.fst).Nodup) :
    ReadsUnless (refusalOf (Expr.integersOf ps)) (.brace :: opened) (cs ++ '\x7d' :: rest)
      (s.push (.object p qs none)) opened rest (s.deliver (.object (qs ++ ps))) := by
  cases h with
  | nil =>
    rw [List.append_nil]
    exact reads_brace p qs
  | @one key e cs h =>
    have hproperty : ReadsUnless (refusalOf e.integers) (.brace :: opened)
        (key.toList ++ ':' :: (cs ++ '\x7d' :: rest)) (s.push (.object p qs none))
        (.brace :: opened) ('\x7d' :: rest) (s.push (.object p (qs ++ [(key, e)]) none)) :=
      reads_property (hn _ List.mem_cons_self) (key_not_mem hk)
        (h.reads (hw _ List.mem_cons_self) (by simp) (s.awaits_property p qs key)
          ⟨'\x7d', _, rfl, by simp [delimiters]⟩)
    rw [List.append_assoc, Expr.integersOf, Expr.integersOf, List.append_nil]
    exact hproperty.transTo (reads_brace p _)
  | @cons key e q ps cs ds h hps =>
    have hproperty : ReadsUnless (refusalOf e.integers) (.brace :: opened)
        (key.toList ++ ':' :: (cs ++ ',' :: (ds ++ '\x7d' :: rest)))
        (s.push (.object p qs none)) (.brace :: opened) (',' :: (ds ++ '\x7d' :: rest))
        (s.push (.object p (qs ++ [(key, e)]) none)) :=
      reads_property (hn _ List.mem_cons_self) (key_not_mem hk)
        (h.reads (hw _ List.mem_cons_self) (by simp) (s.awaits_property p qs key)
          ⟨',', _, rfl, by simp [delimiters]⟩)
    have hrest : ReadsUnless (refusalOf (Expr.integersOf (q :: ps))) (.brace :: opened)
        (ds ++ '\x7d' :: rest) (s.push (.object p (qs ++ [(key, e)]) none)) opened rest
        (s.deliver (.object (qs ++ [(key, e)] ++ q :: ps))) :=
      hps.reads (fun r hr => hn r (List.mem_cons_of_mem _ hr))
        (fun r hr => hw r (List.mem_cons_of_mem _ hr)) (by rwa [List.append_assoc])
    rw [List.append_assoc] at hrest
    rw [List.append_assoc, List.cons_append, List.append_assoc, Expr.integersOf, refusalOf_append]
    exact (hproperty.transTo (reads_separator p _)).trans hrest

theorem WritesParts.reads {L : Value → Prop} {inTemplate afterText : Bool} {es : List Expr}
    {cs : List Char} (h : WritesParts inTemplate afterText es cs)
    (hw : ∀ e ∈ es, e.WellFormed L) {opened : List Opener}
    (hm : ∀ cs, lexeme? opened (skip opened cs) = textLexeme? inTemplate cs)
    {rest : List Char} (hr : EndsText inTemplate rest) {s : Assembly} (hs : s.AtText) :
    ReadsUnless (refusalOf (Expr.integersAll es)) opened (cs ++ rest) s opened rest
      (es.foldl Assembly.deliver s) := by
  cases h with
  | nil => exact .refl _ _ _
  | @interpolation _ _ e es cs ds h hes =>
    have hparts := hes.reads (fun d hd => hw d (List.mem_cons_of_mem e hd)) hm hr (hs.deliver e)
    rw [List.cons_append, List.cons_append, List.append_assoc]
    refine .lexeme (l := ⟨.expressionStart, ['$', '\x7b'], _⟩) (hm _) (fun p => hs.step_start rfl)
      fun p => ?_
    have he : ReadsUnless (refusalOf e.integers) (.interpolation :: opened)
        (cs ++ '\x7d' :: (ds ++ rest)) (s.push (.interpolation p none)) (.interpolation :: opened)
        ('\x7d' :: (ds ++ rest)) (s.push (.interpolation p (some e))) :=
      h.reads (hw e List.mem_cons_self) (by simp) (s.awaits_interpolation p)
        ⟨'\x7d', _, rfl, by simp [delimiters]⟩
    rw [Expr.integersAll, refusalOf_append]
    exact (he.transTo (reads_expressionEnd p e)).trans hparts
  | @plain _ text es cs hp hes =>
    have hparts := hes.reads (fun d hd => hw d (List.mem_cons_of_mem _ hd)) hm hr
      (hs.deliver (.text text))
    rw [List.append_assoc]
    refine .lexeme ((hm _).trans (textLexeme_plain hp (hes.endsText hr)))
      (fun p => hs.step_string rfl) fun p => ?_
    rw [String.ofList_toList]
    exact hparts

end

end Reading

theorem Phrase.parse_of_readsTo {p : Phrase} {text : String} (hne : p ≠ [])
    (h : ReadsTo [] text.toList .start [] [] ⟨p, []⟩) : parse text = .ok p := by
  obtain ⟨position, ts, hts, hrun⟩ := h 0
  refine parse_of_emits hts hrun ?_
  rintro rfl
  cases hrun
  contradiction

theorem Phrase.parse_of_readsTo_text {p : Phrase} {text : String} (hne : text.toList ≠ [])
    (h : ReadsTo [] text.toList .start [] [] ⟨p, []⟩) : parse text = .ok p := by
  obtain ⟨position, ts, hts, hrun⟩ := h 0
  refine parse_of_emits hts hrun ?_
  rintro rfl
  exact hne (congrArg State.rest hts.eq_of_nil).symm

theorem Phrase.parse_plain {text : String} (hne : text.toList ≠ [])
    (hi : ¬ ['$', '\x7b'] <:+: text.toList) : parse text = .ok [.text text] := by
  have hplain : IsPlain false text.toList := ⟨hne, hi, by simp⟩
  have hl : textLexeme? false text.toList = some ⟨.string, text.toList, []⟩ := by
    have h := textLexeme_plain hplain (.inl rfl : EndsText false [])
    rwa [List.append_nil] at h
  have hstep (p : Nat) : Assembly.start.step ⟨.string, String.ofList text.toList, p⟩ =
      .ok ⟨[.text text], []⟩ := by
    rw [String.ofList_toList]
    rfl
  exact parse_of_readsTo (by simp) (.lexeme hl hstep fun _ => .refl _ _ _)

theorem Phrase.parse_of_refused {s : Assembly} {e : ParseError} {text : String}
    (h : ReadsUnless (some e) [] text.toList .start [] [] s) : parse text = .error e := by
  obtain ⟨position, ts, hts, hrun⟩ := h 0
  have hne : ts ≠ [] := by
    rintro rfl
    contradiction
  rw [parse_eq_ofTokens (tokens_of_emits hts rfl), ofTokens, hrun]
  simp [hne, Assembly.unless]

theorem Phrase.IsWrittenAs.reads {p : Phrase} {text : String} (h : p.IsWrittenAs text)
    (hw : p.WellFormed) :
    ReadsUnless (refusalOf p.integers) [] text.toList .start [] [] ⟨p, []⟩ := by
  have hstart : Assembly.AtText .start := .inl rfl
  have hreads : ReadsUnless (refusalOf p.integers) [] (text.toList ++ []) .start [] []
      (p.foldl Assembly.deliver .start) := WritesParts.reads h hw (fun _ => rfl) (.inl rfl) hstart
  have hd := Assembly.foldl_deliver_start p []
  rw [List.append_nil] at hreads
  rw [List.nil_append] at hd
  rwa [← hd]

theorem Phrase.IsWrittenAs.parse_ok {p : Phrase} {text : String} (h : p.IsWrittenAs text)
    (hne : p ≠ []) (hw : p.WellFormed) (hall : ∀ n ∈ p.integers, Number.hasText n = true) :
    parse text = .ok p := by
  have hnone : refusalOf p.integers = none := by simpa [refusalOf] using hall
  have hreads := h.reads hw
  rw [hnone] at hreads
  exact parse_of_readsTo hne hreads

theorem Phrase.IsWrittenAs.parse_error {p : Phrase} {text : String} (h : p.IsWrittenAs text)
    (hw : p.WellFormed) {n : Int} (hn : p.integers.find? (!Number.hasText ·) = some n) :
    parse text = .error (.malformedNumber (Number.intText n)) := by
  have hreads := h.reads hw
  rw [refusalOf, hn, Option.map_some] at hreads
  exact parse_of_refused hreads

/-- Every phrase of well-formed expressions can be written down, and whichever way it is written it
is read back as it was, unless an integer in it is beyond the digit limit. Then it is refused for
the first of these. -/
theorem parse_of_isWrittenAs {p : Phrase} (hne : p ≠ []) (hw : p.WellFormed) :
    (∃ text, p.IsWrittenAs text) ∧ ∀ text, p.IsWrittenAs text →
      ((∀ n ∈ p.integers, Number.hasText n = true) → Phrase.parse text = .ok p) ∧
      ∀ n, p.integers.find? (!Number.hasText ·) = some n →
        Phrase.parse text = .error (.malformedNumber (Number.intText n)) :=
  ⟨hw.exists_text, fun _ h => ⟨h.parse_ok hne hw, fun _ => h.parse_error hw⟩⟩

theorem parse_of_isWrittenAs_nested :
    let part := Expr.template [.text "a", .identifier "nullable"]
    let p : Phrase := [.text "cost $", .call "f" [.object [("k", part)], .text "'`\x7d"]]
    let text := "cost $$\x7bf(\x7bk:`a$\x7bnullable\x7d`\x7d,'\\'`\x7d')\x7d"
    p.WellFormed ∧ p.IsWrittenAs text ∧ Phrase.parse text = .ok p := by
  intro part p text
  have hpart : part.WellFormed Value.IsWritable := by
    refine .template ?_
    simp only [List.forall_mem_cons]
    exact ⟨.literal (.str "a"), .identifier (by decide +kernel), by simp⟩
  have hw : p.WellFormed := by
    simp only [Phrase.WellFormed, p, List.forall_mem_cons]
    refine ⟨.literal (.str _), .call (by decide +kernel) ?_, by simp⟩
    simp only [List.forall_mem_cons]
    refine ⟨.object (by simp) ?_ ?_, .literal (.str _), by simp⟩
    · simp only [List.forall_mem_cons]
      exact ⟨by decide +kernel, by simp⟩
    · simp only [List.forall_mem_cons]
      exact ⟨hpart, by simp⟩
  have htext : p.IsWrittenAs text := by
    have hplain : IsPlain false "cost $".toList := ⟨by decide, by decide +kernel, by simp⟩
    have hinner : IsPlain true "a".toList := ⟨by decide, by decide +kernel, by decide +kernel⟩
    have h := WritesParts.plain hplain (.interpolation true (.call "f"
      (.cons (.object (.one "k" (.template (.plain hinner
        (.interpolation true (.identifier "nullable") (.nil _ _))))))
      (.one (.literal (.str "'`\x7d" (.inr rfl)))))) (.nil _ _))
    exact (congrArg (WritesParts false false p) (by decide +kernel)).mp h
  have hread := ((parse_of_isWrittenAs (by simp [p]) hw).2 text htext).1
  exact ⟨hw, htext, hread (by simp [p, part, Phrase.integers, Expr.text, Expr.integersAll,
    Expr.integers, Expr.integersOf])⟩

def interpolated (n : Int) : String :=
  String.ofList ('$' :: '\x7b' :: (Number.intChars n ++ ['\x7d']))

theorem Phrase.isWrittenAs_interpolated (n : Int) :
    IsWrittenAs [.literal (.int n)] (interpolated n) := by
  rw [IsWrittenAs, interpolated, String.toList_ofList]
  exact .interpolation false (.literal (.int n)) (.nil _ _)

theorem Phrase.wellFormed_int (n : Int) : WellFormed [.literal (.int n)] :=
  List.forall_mem_singleton.2 (.literal (.int n))

theorem Phrase.parse_interpolated {n : Int} (hn : Number.hasText n = false) :
    parse (interpolated n) = .error (.malformedNumber (Number.intText n)) := by
  refine (isWrittenAs_interpolated n).parse_error (wellFormed_int n) ?_
  simp [integers, Expr.integersAll, Expr.integers, hn]

/-- An integer beyond the digit limit is written down but not read back. -/
theorem parse_of_isWrittenAs_overlong :
    let p : Phrase := [.literal (.int (10 ^ Number.maxDigits))]
    let text := interpolated (10 ^ Number.maxDigits)
    p ≠ [] ∧ p.WellFormed ∧ p.IsWrittenAs text ∧ Phrase.parse text ≠ .ok p := by
  intro p text
  refine ⟨by simp [p], Phrase.wellFormed_int _, Phrase.isWrittenAs_interpolated _, ?_⟩
  rw [Phrase.parse_interpolated Number.hasText_pow]
  simp

end MessageCatalog
