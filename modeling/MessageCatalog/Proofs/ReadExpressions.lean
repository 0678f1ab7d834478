import MessageCatalog.Proofs.Grammar
import MessageCatalog.Proofs.RoundTrip

/-!
# What tokens stand for

The grammar of expressions together with what the tokens stand for. A list of items stands for its
segments, from one comma to the next, and a list of properties for all that is written in it, in
order. An assembly that awaits an expression reads tokens as one exactly if they stand for it,
whatever else is open around it.
-/
namespace MessageCatalog

def filled : List Expr → List Expr
  | [] => [.elided]
  | e :: es => e :: es

/-- The items of a list that its commas cut into segments. Without a comma nothing is left out. -/
def slots : List (List Expr) → List Expr
  | [segment] => segment
  | segments => segments.flatMap filled

def ListEnd.resume (last : ListEnd) (items : List Expr) : List Expr → List (List Expr) → List Expr
  | [], [] => last.atClose items
  | [], segment :: segments => last.atComma items ++ (segment :: segments).flatMap filled
  | e :: es, segments => items ++ e :: es ++ segments.flatMap filled

namespace ListEnd

theorem resume_opened (segment : List Expr) (segments : List (List Expr)) :
    ListEnd.opened.resume [] segment segments = slots (segment :: segments) := by
  cases segment <;> cases segments <;> simp [resume, slots, filled, atClose, atComma]

theorem resume_comma (items segment : List Expr) (segments : List (List Expr)) :
    ListEnd.comma.resume items segment segments =
      items ++ (segment :: segments).flatMap filled := by
  cases segment <;> cases segments <;> simp [resume, filled, atClose, atComma]

theorem resume_item (items segment : List Expr) (segments : List (List Expr)) :
    ListEnd.item.resume items segment segments = items ++ segment ++ segments.flatMap filled := by
  cases segment <;> cases segments <;> simp [resume, atClose, atComma]

theorem resume_cons (last : ListEnd) (items : List Expr) (e : Expr) (segment : List Expr)
    (segments : List (List Expr)) : last.resume items (e :: segment) segments =
      ListEnd.item.resume (items ++ [e]) segment segments := by
  rw [resume_item, resume]
  simp

end ListEnd

inductive Denotation where
  | expression (e : Expr)
  | items (segment : List Expr) (segments : List (List Expr))
  | properties (written : List (String × Expr))
  | parts (es : List Expr)

inductive Denotes : List Token → Denotation → Prop where
  | identifier {t : Token} :
      t.kind = .identifier → Denotes [t] (.expression (.identifier t.value))
  | literal {t : Token} {v : Value} : t.kind.isLiteral = true →
      Assembly.literalValue t = .ok v → Denotes [t] (.expression (.literal v))
  | call {o c : Token} {ts : List Token} {segment : List Expr} {segments : List (List Expr)} :
      o.kind = .functionCall → c.kind = .parenEnd → Denotes ts (.items segment segments) →
      Denotes (o :: (ts ++ [c])) (.expression (.call o.value (slots (segment :: segments))))
  | array {o c : Token} {ts : List Token} {segment : List Expr} {segments : List (List Expr)} :
      o.kind = .bracketStart → c.kind = .bracketEnd → Denotes ts (.items segment segments) →
      Denotes (o :: (ts ++ [c])) (.expression (.array (slots (segment :: segments))))
  | object {o c : Token} {ts : List Token} {written : List (String × Expr)} :
      o.kind = .braceStart → c.kind = .braceEnd → Denotes ts (.properties written) →
      Denotes (o :: (ts ++ [c])) (.expression (.object (Entries.ofPairs written)))
  | template {o c : Token} {ts : List Token} {es : List Expr} :
      o.kind = .templateStart → c.kind = .templateEnd → Denotes ts (.parts es) →
      Denotes (o :: (ts ++ [c])) (.expression (.template es))
  | noItems : Denotes [] (.items [] [])
  | comma {t : Token} {ts : List Token} {segment : List Expr} {segments : List (List Expr)} :
      t.kind = .comma → Denotes ts (.items segment segments) →
      Denotes (t :: ts) (.items [] (segment :: segments))
  | item {ts us : List Token} {e : Expr} {segment : List Expr} {segments : List (List Expr)} :
      Denotes ts (.expression e) → Denotes us (.items segment segments) →
      Denotes (ts ++ us) (.items (e :: segment) segments)
  | noProperties : Denotes [] (.properties [])
  | separator {t : Token} {ts : List Token} {written : List (String × Expr)} :
      t.kind = .comma → Denotes ts (.properties written) → Denotes (t :: ts) (.properties written)
  | property {t : Token} {ts us : List Token} {e : Expr} {written : List (String × Expr)} :
      t.kind = .propertyName → Denotes ts (.expression e) → Denotes us (.properties written) →
      Denotes (t :: (ts ++ us)) (.properties ((t.value, e) :: written))
  | noParts : Denotes [] (.parts [])
  | text {t : Token} {ts : List Token} {es : List Expr} :
      t.kind = .string → Denotes ts (.parts es) → Denotes (t :: ts) (.parts (.text t.value :: es))
  | interpolation {o c : Token} {ts us : List Token} {e : Expr} {es : List Expr} :
      o.kind = .expressionStart → c.kind = .expressionEnd → Denotes ts (.expression e) →
      Denotes us (.parts es) → Denotes (o :: (ts ++ c :: us)) (.parts (e :: es))

theorem TokenKind.beginsExpression_of_isLiteral {kind : TokenKind} (h : kind.isLiteral = true) :
    kind.beginsExpression = true := by
  cases kind <;> first | exact h | rfl

namespace Assembly

variable {s s' : Assembly} {t : Token} {ts us : List Token} {e : Expr}

/-- What reading tokens does where they may stand for a denotation of a kind. Of the items of a list
only what becomes of them in the end is said, since a comma is counted only by what follows it. -/
def ReadsAs (ts : List Token) : Denotation → Prop
  | .expression e => ∀ s : Assembly, s.Awaits → s.run ts = .ok (s.deliver e)
  | .items segment segments => ∀ (s : Assembly) (l : ItemList) items last, ∃ items' last',
      (s.push (l.construct items last)).run ts = .ok (s.push (l.construct items' last')) ∧
        last'.atClose items' = last.resume items segment segments
  | .properties written => ∀ (s : Assembly) p properties,
      (s.push (.object p properties none)).run ts =
        .ok (s.push (.object p (Entries.overlay properties written) none))
  | .parts es => ∀ (s : Assembly) p parts,
      (s.push (.template p parts)).run ts = .ok (s.push (.template p (parts ++ es)))

theorem expression_literal {v : Value} (ht : t.kind.isLiteral = true) (hv : literalValue t = .ok v) :
    s.expression t = .ok (s.deliver (.literal v)) := by
  have hmap : ((literalValue t).map fun v => s.deliver (.literal v)) =
      .ok (s.deliver (.literal v)) := by
    rw [hv]
    rfl
  unfold expression
  cases hk : t.kind <;> simp_all [TokenKind.isLiteral]

theorem run_enclosed {o c : Token} {s₁ s₂ s₃ : Assembly} (ho : s.step o = .ok s₁)
    (hr : s₁.run ts = .ok s₂) (hc : s₂.step c = .ok s₃) (us : List Token) :
    s.run (o :: (ts ++ c :: us)) = s₃.run us := by
  rw [run_cons_ok ho, run_append_ok hr, run_cons_ok hc]

theorem run_list {o c : Token} {segment : List Expr} {segments : List (List Expr)} (l : ItemList)
    (ho : s.step o = .ok (s.push (l.construct [] .opened))) (hc : c.kind = l.closer)
    (h : ReadsAs ts (.items segment segments)) :
    s.run (o :: (ts ++ [c])) = .ok (s.deliver (l.close (slots (segment :: segments)))) := by
  obtain ⟨items, last, hr, hitems⟩ := h s l [] .opened
  have hcomma : c.kind ≠ .comma := by
    rw [hc]
    cases l <;> simp [ItemList.closer]
  have hclose : (s.push (l.construct items last)).step c =
      .ok (s.deliver (l.close (last.atClose items))) := by
    rw [step_items l rfl, if_neg hcomma, if_pos hc, close_push]
  rw [run_enclosed ho hr hclose, hitems, ListEnd.resume_opened]
  rfl

theorem readsAs_object {o c : Token} {written : List (String × Expr)} (ho : o.kind = .braceStart)
    (hc : c.kind = .braceEnd) (h : ReadsAs ts (.properties written)) :
    ReadsAs (o :: (ts ++ [c])) (.expression (.object (Entries.ofPairs written))) := by
  intro s hs
  have hopen : s.step o = .ok (s.push (.object o.position [] none)) := by
    rw [hs o (by rw [ho]; rfl)]
    simp only [expression, ho]
  have hclose : (s.push (.object o.position (Entries.overlay [] written) none)).step c =
      .ok (s.deliver (.object (Entries.ofPairs written))) := by
    simp only [step, stack_push, hc, close_push]
    rfl
  exact run_enclosed hopen (h s o.position []) hclose []

theorem readsAs_template {o c : Token} {es : List Expr} (ho : o.kind = .templateStart)
    (hc : c.kind = .templateEnd) (h : ReadsAs ts (.parts es)) :
    ReadsAs (o :: (ts ++ [c])) (.expression (.template es)) := by
  intro s hs
  have hopen : s.step o = .ok (s.push (.template o.position [])) := by
    rw [hs o (by rw [ho]; rfl)]
    simp only [expression, ho]
  have hclose : (s.push (.template o.position ([] ++ es))).step c =
      .ok (s.deliver (.template es)) := by
    simp only [step, stack_push, textOr, hc, close_push, List.nil_append]
  exact run_enclosed hopen (h s o.position []) hclose []

theorem readsAs_comma {segment : List Expr} {segments : List (List Expr)} (ht : t.kind = .comma)
    (h : ReadsAs ts (.items segment segments)) :
    ReadsAs (t :: ts) (.items [] (segment :: segments)) := by
  intro s l items last
  obtain ⟨items', last', hr, hitems⟩ := h s l (last.atComma items) .comma
  refine ⟨items', last', ?_, hitems.trans (ListEnd.resume_comma _ _ _)⟩
  have hstep : (s.push (l.construct items last)).step t =
      .ok (s.push (l.construct (last.atComma items) .comma)) := by
    rw [step_items l rfl, if_pos ht, update_push]
  rw [run_cons_ok hstep, hr]

theorem readsAs_item {segment : List Expr} {segments : List (List Expr)}
    (he : ReadsAs ts (.expression e)) (h : ReadsAs us (.items segment segments)) :
    ReadsAs (ts ++ us) (.items (e :: segment) segments) := by
  intro s l items last
  obtain ⟨items', last', hr, hitems⟩ := h s l (items ++ [e]) .item
  refine ⟨items', last', ?_, hitems.trans (ListEnd.resume_cons ..).symm⟩
  rw [run_append_ok (he _ (s.awaits_items l items last)), deliver_push_items, hr]

theorem readsAs_separator {written : List (String × Expr)} (ht : t.kind = .comma)
    (h : ReadsAs ts (.properties written)) : ReadsAs (t :: ts) (.properties written) := by
  intro s p properties
  have hstep : (s.push (.object p properties none)).step t =
      .ok (s.push (.object p properties none)) := by
    simp only [step, stack_push, ht]
  rw [run_cons_ok hstep]
  exact h s p properties

theorem readsAs_property {written : List (String × Expr)} (ht : t.kind = .propertyName)
    (he : ReadsAs ts (.expression e)) (h : ReadsAs us (.properties written)) :
    ReadsAs (t :: (ts ++ us)) (.properties ((t.value, e) :: written)) := by
  intro s p properties
  have hstep : (s.push (.object p properties none)).step t =
      .ok (s.push (.object p properties (some t.value))) := by
    simp only [step, stack_push, ht, update_push]
  rw [run_cons_ok hstep, run_append_ok (he _ (s.awaits_property p properties t.value))]
  exact h s p (Entries.put t.value e properties)

theorem atText_template (s : Assembly) (p : Nat) (parts : List Expr) :
    (s.push (.template p parts)).AtText :=
  .inr ⟨p, parts, s.stack, rfl⟩

theorem readsAs_text {es : List Expr} (ht : t.kind = .string) (h : ReadsAs ts (.parts es)) :
    ReadsAs (t :: ts) (.parts (.text t.value :: es)) := by
  intro s p parts
  have hdeliver : (s.push (.template p parts)).deliver (.text t.value) =
      s.push (.template p (parts ++ [.text t.value])) := rfl
  rw [run_cons_ok ((s.atText_template p parts).step_string ht), hdeliver, h, List.append_assoc]
  rfl

theorem readsAs_interpolation {o c : Token} {es : List Expr} (ho : o.kind = .expressionStart)
    (hc : c.kind = .expressionEnd) (he : ReadsAs ts (.expression e)) (h : ReadsAs us (.parts es)) :
    ReadsAs (o :: (ts ++ c :: us)) (.parts (e :: es)) := by
  intro s p parts
  have hclose : ((s.push (.template p parts)).push (.interpolation o.position (some e))).step c =
      .ok (s.push (.template p (parts ++ [e]))) := by
    simp only [step, stack_push, hc]
    rfl
  have hopen := (s.atText_template p parts).step_start ho
  rw [run_enclosed hopen (he _ (awaits_interpolation _ _)) hclose, h, List.append_assoc]
  rfl

-- By induction on the grammar, with what is said of each category in every context it may stand in.
theorem readsAs_of_denotes {d : Denotation} (h : Denotes ts d) : ReadsAs ts d := by
  induction h with
  | @identifier t ht =>
    intro s hs
    have hstep : s.step t = .ok (s.deliver (.identifier t.value)) := by
      rw [hs t (by rw [ht]; rfl)]
      simp only [expression, ht]
    rw [run_cons_ok hstep, run]
  | @literal t v ht hv =>
    intro s hs
    rw [run_cons_ok ((hs t (TokenKind.beginsExpression_of_isLiteral ht)).trans
      (expression_literal ht hv)), run]
  | @call o c ts segment segments ho hc h ih =>
    intro s hs
    refine run_list (.call o.position o.value) ?_ hc ih
    rw [hs _ (by rw [ho]; rfl)]
    simp only [expression, ho]
    rfl
  | @array o c ts segment segments ho hc h ih =>
    intro s hs
    refine run_list (.array o.position) ?_ hc ih
    rw [hs _ (by rw [ho]; rfl)]
    simp only [expression, ho]
    rfl
  | object ho hc h ih => exact readsAs_object ho hc ih
  | template ho hc h ih => exact readsAs_template ho hc ih
  | noItems => exact fun s l items last => ⟨items, last, rfl, rfl⟩
  | comma ht h ih => exact readsAs_comma ht ih
  | item he h ihe ih => exact readsAs_item ihe ih
  | noProperties => exact fun s p properties => rfl
  | separator ht h ih => exact readsAs_separator ht ih
  | property ht he h ihe ih => exact readsAs_property ht ihe ih
  | noParts => exact fun s p parts => by rw [List.append_nil]; rfl
  | text ht h ih => exact readsAs_text ht ih
  | interpolation ho hc he h ihe ih => exact readsAs_interpolation ho hc ihe ih

theorem converts_of_step (h : s.step t = .ok s') : Converts t := by
  intro hk
  cases hn : numberValue? t.value with
  | some v => rfl
  | none =>
    have he : s.expression t = .error (.malformedNumber t.value) := by
      simp [expression, hk, TokenKind.isLiteral, literalValue, hn, Except.map]
    unfold step at h
    split at h <;> simp_all [textOr, unexpected, fail]

theorem converts_of_run (h : s.run ts = .ok s') : ∀ t ∈ ts, Converts t := by
  induction ts generalizing s with
  | nil => simp
  | cons t ts ih =>
    obtain ⟨s₁, hs₁, hrun⟩ := exists_step_of_run_ok h
    exact List.forall_mem_cons.2 ⟨converts_of_step hs₁, ih hrun⟩

end Assembly

def Category.StandsFor (ts : List Token) : Category → Prop
  | .phrase => True
  | .expression => ∃ e, Denotes ts (.expression e)
  | .items => ∃ segment segments, Denotes ts (.items segment segments)
  | .properties => ∃ written, Denotes ts (.properties written)
  | .parts => ∃ es, Denotes ts (.parts es)

theorem exists_of_map_kind {ts : List Token} {o c : TokenKind} {ks ls : List TokenKind}
    (h : ts.map Token.kind = o :: (ks ++ c :: ls)) :
    ∃ t us u vs, ts = t :: (us ++ u :: vs) ∧ t.kind = o ∧ us.map Token.kind = ks ∧ u.kind = c ∧
      vs.map Token.kind = ls := by
  obtain ⟨t, rest, rfl, ht, hrest⟩ := List.map_eq_cons_iff.1 h
  obtain ⟨us, rest, rfl, hus, hrest⟩ := List.map_eq_append_iff.1 hrest
  obtain ⟨u, vs, rfl, hu, hvs⟩ := List.map_eq_cons_iff.1 hrest
  exact ⟨t, us, u, vs, rfl, ht, hus, hu, hvs⟩

theorem exists_enclosed {ts : List Token} {o c : TokenKind} {ks : List TokenKind}
    {P : List Token → Prop} (hk : ts.map Token.kind = o :: (ks ++ [c]))
    (hc : ∀ t ∈ ts, Assembly.Converts t)
    (h : ∀ us : List Token, us.map Token.kind = ks → (∀ t ∈ us, Assembly.Converts t) → P us) :
    ∃ t us u, ts = t :: (us ++ [u]) ∧ t.kind = o ∧ u.kind = c ∧ P us := by
  obtain ⟨t, us, u, vs, rfl, ht, hus, hu, hvs⟩ := exists_of_map_kind hk
  obtain rfl := List.map_eq_nil_iff.1 hvs
  exact ⟨t, us, u, rfl, ht, hu, h us hus fun v hv => hc v (by simp [hv])⟩

theorem standsFor_of_derives {category : Category} {ks : List TokenKind}
    (h : Derives category ks) {ts : List Token} (hk : ts.map Token.kind = ks)
    (hc : ∀ t ∈ ts, Assembly.Converts t) : category.StandsFor ts := by
  induction h generalizing ts with
  | phraseEmpty | phraseText | phraseInterpolation | phraseStrayEnd | phraseStrayBrace =>
    exact trivial
  | identifier =>
    obtain ⟨t, rfl, ht⟩ := List.map_eq_singleton_iff.1 hk
    exact ⟨_, .identifier ht⟩
  | literal hl =>
    obtain ⟨t, rfl, rfl⟩ := List.map_eq_singleton_iff.1 hk
    obtain ⟨v, hv⟩ := Assembly.literalValue_of_converts (hc t (List.mem_singleton_self t))
    refine ⟨_, .literal ?_ hv⟩
    simp only [List.mem_cons, List.not_mem_nil, or_false] at hl
    rcases hl with hk | hk | hk | hk | hk <;> rw [hk] <;> rfl
  | call hi ih =>
    obtain ⟨o, us, c, rfl, ho, hcl, segment, segments, hd⟩ := exists_enclosed hk hc fun _ => ih
    exact ⟨_, .call ho hcl hd⟩
  | array hi ih =>
    obtain ⟨o, us, c, rfl, ho, hcl, segment, segments, hd⟩ := exists_enclosed hk hc fun _ => ih
    exact ⟨_, .array ho hcl hd⟩
  | object hp ih =>
    obtain ⟨o, us, c, rfl, ho, hcl, written, hd⟩ := exists_enclosed hk hc fun _ => ih
    exact ⟨_, .object ho hcl hd⟩
  | template hp ih =>
    obtain ⟨o, us, c, rfl, ho, hcl, es, hd⟩ := exists_enclosed hk hc fun _ => ih
    exact ⟨_, .template ho hcl hd⟩
  | itemsEmpty =>
    obtain rfl := List.map_eq_nil_iff.1 hk
    exact ⟨_, _, .noItems⟩
  | itemsComma hi ih =>
    obtain ⟨t, us, rfl, ht, hus⟩ := List.map_eq_cons_iff.1 hk
    obtain ⟨hct, hcus⟩ := List.forall_mem_cons.1 hc
    obtain ⟨segment, segments, hd⟩ := ih hus hcus
    exact ⟨_, _, .comma ht hd⟩
  | item he hi ihe ih =>
    obtain ⟨us, vs, rfl, hus, hvs⟩ := List.map_eq_append_iff.1 hk
    obtain ⟨hcus, hcvs⟩ := List.forall_mem_append.1 hc
    obtain ⟨e, hd⟩ := ihe hus hcus
    obtain ⟨segment, segments, hd'⟩ := ih hvs hcvs
    exact ⟨_, _, .item hd hd'⟩
  | propertiesEmpty =>
    obtain rfl := List.map_eq_nil_iff.1 hk
    exact ⟨_, .noProperties⟩
  | propertiesComma hp ih =>
    obtain ⟨t, us, rfl, ht, hus⟩ := List.map_eq_cons_iff.1 hk
    obtain ⟨hct, hcus⟩ := List.forall_mem_cons.1 hc
    obtain ⟨written, hd⟩ := ih hus hcus
    exact ⟨_, .separator ht hd⟩
  | property he hp ihe ih =>
    obtain ⟨t, rest, rfl, ht, hrest⟩ := List.map_eq_cons_iff.1 hk
    obtain ⟨us, vs, rfl, hus, hvs⟩ := List.map_eq_append_iff.1 hrest
    obtain ⟨hct, hcrest⟩ := List.forall_mem_cons.1 hc
    obtain ⟨hcus, hcvs⟩ := List.forall_mem_append.1 hcrest
    obtain ⟨e, hd⟩ := ihe hus hcus
    obtain ⟨written, hd'⟩ := ih hvs hcvs
    exact ⟨_, .property ht hd hd'⟩
  | partsEmpty =>
    obtain rfl := List.map_eq_nil_iff.1 hk
    exact ⟨_, .noParts⟩
  | partsText hp ih =>
    obtain ⟨t, us, rfl, ht, hus⟩ := List.map_eq_cons_iff.1 hk
    obtain ⟨hct, hcus⟩ := List.forall_mem_cons.1 hc
    obtain ⟨es, hd⟩ := ih hus hcus
    exact ⟨_, .text ht hd⟩
  | partsInterpolation he hp ihe ih =>
    obtain ⟨o, us, c, vs, rfl, ho, hus, hcl, hvs⟩ := exists_of_map_kind hk
    obtain ⟨e, hd⟩ := ihe hus fun t ht => hc t (by simp [ht])
    obtain ⟨es, hd'⟩ := ih hvs fun t ht => hc t (by simp [ht])
    exact ⟨_, .interpolation ho hcl hd hd'⟩

def Assembly.awaiting : Assembly := Assembly.start.push (.interpolation 0 none)

/-- These tokens, alone in an interpolation, are read as this expression. -/
def Expr.IsReadFrom (e : Expr) (ts : List Token) : Prop :=
  Assembly.awaiting.run ts = .ok (Assembly.awaiting.deliver e)

namespace Assembly

variable {s s' : Assembly} {t : Token} {ts us : List Token} {e : Expr}

theorem deliver_parts_ne_nil (h : s.parts ≠ []) (e : Expr) : (s.deliver e).parts ≠ [] := by
  unfold deliver
  split <;> simp [update, h]

theorem step_parts_ne_nil (hs : s.parts ≠ []) (h : s.step t = .ok s') : s'.parts ≠ [] := by
  cases step_move h with
  | hand e => exact deliver_parts_ne_nil hs e
  | finish e => exact deliver_parts_ne_nil (s := ⟨s.parts, s.stack.tail⟩) hs e
  | begin | change | ignore => exact hs

theorem awaiting_run_ne (he : e.IsReadFrom ts) (ht : t.kind = .expressionEnd) (us : List Token)
    (d : Expr) : awaiting.run (ts ++ t :: us) ≠ .ok (awaiting.deliver d) := by
  intro hr
  have hclose : (awaiting.deliver e).step t = .ok (start.deliver e) := by
    simp only [awaiting, deliver, push, update, step, ht]
    rfl
  have hleft : (start.deliver e).parts ≠ [] := by simp [start, deliver]
  rw [run_append_ok he, run_cons_ok hclose] at hr
  exact run_preserves (P := fun s => s.parts ≠ []) (fun _ _ _ _ => step_parts_ne_nil) hleft hr rfl

end Assembly

theorem run_of_denotes {e : Expr} {ts : List Token} (h : Denotes ts (.expression e)) {s : Assembly}
    (hs : s.Awaits) : s.run ts = .ok (s.deliver e) :=
  Assembly.readsAs_of_denotes h s hs

theorem isReadFrom_of_denotes {e : Expr} {ts : List Token} (h : Denotes ts (.expression e)) :
    e.IsReadFrom ts :=
  run_of_denotes h (Assembly.awaits_interpolation _ _)

theorem Expr.IsReadFrom.unique {e d : Expr} {ts : List Token} (he : e.IsReadFrom ts)
    (hd : d.IsReadFrom ts) : e = d := by
  have h := he.symm.trans hd
  simpa [Assembly.awaiting, Assembly.deliver, Assembly.update, Assembly.push] using h

theorem denotes_of_isReadFrom {e : Expr} {ts : List Token} (h : e.IsReadFrom ts) :
    Denotes ts (.expression e) := by
  let closing : Token := ⟨.expressionEnd, "\x7d", 0⟩
  have hrun : Assembly.awaiting.run (ts ++ [closing]) = .ok (Assembly.start.deliver e) := by
    rw [Assembly.run_append_ok h]
    rfl
  have hc := Assembly.converts_of_run hrun
  obtain ⟨ks, _, hks, hderives, ls, rfl, -⟩ := (Assembly.run_completes hc).1 ⟨_, hrun, rfl⟩
  obtain ⟨us, rest, hts, hus, hrest⟩ := List.map_eq_append_iff.1 hks
  obtain ⟨t, vs, rfl, ht, -⟩ := List.map_eq_cons_iff.1 hrest
  obtain ⟨d, hd⟩ : ∃ d, Denotes us (.expression d) :=
    standsFor_of_derives hderives hus fun u hu => hc u (by rw [hts]; simp [hu])
  have hread := isReadFrom_of_denotes hd
  rcases List.eq_nil_or_concat vs with rfl | ⟨vs, v, rfl⟩
  · obtain ⟨rfl, -⟩ := List.append_inj' hts rfl
    rwa [h.unique hread]
  · rw [List.concat_eq_append, ← List.cons_append, ← List.append_assoc] at hts
    obtain ⟨rfl, -⟩ := List.append_inj' hts rfl
    exact absurd h (Assembly.awaiting_run_ne hread ht vs e)

theorem isReadFrom_iff_denotes {e : Expr} {ts : List Token} :
    e.IsReadFrom ts ↔ Denotes ts (.expression e) :=
  ⟨denotes_of_isReadFrom, isReadFrom_of_denotes⟩

end MessageCatalog
