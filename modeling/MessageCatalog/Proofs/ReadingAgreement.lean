import MessageCatalog.Proofs.ReadingProgress

/-!
# Readers and assemblies

Readers that call each other and the assembly that keeps open constructs on a stack find the same
phrase in the same tokens, or the same error. At each point of a descent there is an assembly that
the remaining tokens complete to the same verdict: its innermost construct is the one that is being
read.
-/
namespace MessageCatalog

def Assembly.verdict (s : Assembly) (lastPosition : Nat) (ts : List Token) :
    Except ParseError Phrase :=
  match s.run ts with
  | .error e => .error e
  | .ok s' => match s'.endFault? lastPosition with
    | some e => .error (.syntaxError e)
    | none => .ok s'.parts

namespace Walk

variable {w : Walk} {s s' : Assembly} {t : Token}

def verdict (w : Walk) (s : Assembly) : Except ParseError Phrase :=
  s.verdict w.cursor.endPosition (w.cursor.tokens.drop w.cursor.place)

theorem drop_of_current (h : w.cursor.current = some t) :
    w.cursor.tokens.drop w.cursor.place = t :: w.next.cursor.tokens.drop w.next.cursor.place := by
  obtain ⟨hlt, rfl⟩ := List.getElem?_eq_some_iff.1 h
  exact List.drop_eq_getElem_cons hlt

theorem verdict_step (h : w.cursor.current = some t) (hs : s.step t = .ok s') :
    w.verdict s = w.next.verdict s' := by
  simp only [verdict, Assembly.verdict, drop_of_current h, Assembly.run_cons_ok hs]
  rfl

theorem verdict_refused {e : ParseError} (h : w.cursor.current = some t)
    (hs : s.step t = .error e) : w.verdict s = .error e := by
  simp only [verdict, Assembly.verdict, drop_of_current h, Assembly.run, hs]

theorem verdict_end (h : w.cursor.current = none) : w.verdict s =
    match s.endFault? w.cursor.endPosition with
    | some e => .error (.syntaxError e)
    | none => .ok s.parts := by
  have hd : w.cursor.tokens.drop w.cursor.place = [] :=
    List.drop_eq_nil_of_le (List.getElem?_eq_none_iff.1 h)
  rw [verdict, hd]
  rfl

end Walk

namespace ItemList

def itemsAt (l : ItemList) (items : List Expr) (last : ListEnd) : Option Token → List Expr
  | some t =>
    if t.kind = .comma then last.atComma items
    else if t.kind = l.closer then last.atClose items
    else items
  | none => items

theorem itemsAt_some (l : ItemList) (items : List Expr) (last : ListEnd) (t : Token) :
    l.itemsAt items last (some t) =
      if t.kind = .comma then last.atComma items
      else if t.kind = l.closer then last.atClose items
      else items := rfl

theorem itemsAt_opened (l : ItemList) (next : Option Token) :
    l.itemsAt [] .opened next = if next.any (·.kind = .comma) then [.elided] else [] := by
  cases next with
  | none => rfl
  | some t => simp [itemsAt, ListEnd.atComma, ListEnd.atClose]

theorem itemsAt_item (l : ItemList) (items : List Expr) (next : Option Token) :
    l.itemsAt items .item next = items := by
  cases next with
  | none => rfl
  | some t => simp [itemsAt, ListEnd.atComma, ListEnd.atClose]

theorem itemsAt_comma (l : ItemList) (items : List Expr) (next : Option Token) :
    l.itemsAt items .comma next = if next.any l.showsGap then items ++ [.elided] else items := by
  cases next with
  | none => rfl
  | some t =>
    by_cases hc : t.kind = .comma <;>
      simp [itemsAt, showsGap, ListEnd.atComma, ListEnd.atClose, hc]

def Holds (l : ItemList) (s₀ : Assembly) (shown : List Expr) (c : Cursor) (s : Assembly) :
    Prop :=
  ∃ items last, s = s₀.push (l.construct items last) ∧ shown = l.itemsAt items last c.current

end ItemList

namespace Descent

variable {σ α β : Type} {x : Descent α} {f : α → Descent β} {w w' : Walk} {s s' : Assembly}
  {t : Token}

/-- A reader that starts with an assembly at hand: if it has a result, another assembly is at hand
with the same verdict; if it fails, the verdict is that failure. -/
def Follows (w : Walk) (s : Assembly) (x : Descent α) (Q : α → Cursor → Assembly → Prop) : Prop :=
  match x w with
  | .ok a w' => ∃ s', Q a w'.cursor s' ∧ w.verdict s = w'.verdict s'
  | .error (.failed e) _ => w.verdict s = .error e
  | .error .exhausted _ => True

namespace Follows

variable {Q : α → Cursor → Assembly → Prop} {R : β → Cursor → Assembly → Prop}

theorem bind (hx : Follows w s x Q) (hf : ∀ a w' s', Q a w'.cursor s' → Follows w' s' (f a) R) :
    Follows w s (x >>= f) R := by
  unfold Follows at hx ⊢
  rw [bind_apply]
  cases hr : x w with
  | error e w' =>
    rw [hr] at hx
    cases e <;> exact hx
  | ok a w' =>
    rw [hr] at hx
    obtain ⟨s', hQ, hv⟩ := hx
    have h := hf a w' s' hQ
    rw [hv]
    exact h

theorem pure {a : α} (h : Q a w.cursor s) : Follows w s (Pure.pure a) Q := ⟨s, h, rfl⟩

theorem current_bind {f : Option Token → Descent β} (h : Follows w s (f w.cursor.current) R) :
    Follows w s (current >>= f) R := h

theorem atEnd_bind {f : Bool → Descent β} (h : Follows w s (f w.cursor.isAtEnd) R) :
    Follows w s (atEnd >>= f) R := h

theorem following_bind {f : Option Token → Descent β}
    (h : Follows w s (f w.next.cursor.current) R) : Follows w s (following >>= f) R := by
  have hf : (w.cursor.peek? 1).join = w.next.cursor.current := by
    unfold Cursor.peek? Cursor.current Walk.next
    dsimp only
    split
    · next hle => exact (List.getElem?_eq_none_iff.2 (by omega)).symm
    · rw [if_pos (by omega)]
      rfl
  rw [← hf] at h
  exact h

theorem advance_bind {f : Token → Descent β} (hw : w.cursor.current = some t)
    (hs : s.step t = .ok s') (h : Follows w.next s' (f t) R) : Follows w s (advance >>= f) R := by
  unfold Follows at h ⊢
  rw [bind_apply, advance_of_some hw, Walk.verdict_step hw hs]
  exact h

theorem advance_refused {f : Token → Descent β} {e : ParseError} (hw : w.cursor.current = some t)
    (hs : s.step t = .error e) (hf : f t = throw (.failed e)) :
    Follows w s (advance >>= f) R := by
  unfold Follows
  rw [bind_apply, advance_of_some hw]
  dsimp only
  rw [hf]
  exact Walk.verdict_refused hw hs

theorem advance_unexpected {f : Token → Descent β} (hw : w.cursor.current = some t)
    (hs : s.step t = Assembly.unexpected t) (hf : f t = Descent.unexpected t) :
    Follows w s (advance >>= f) R := advance_refused hw hs hf

theorem unexpected (hw : w.cursor.current = some t) (hs : s.step t = Assembly.unexpected t) :
    Follows w s (Descent.unexpected t) Q := Walk.verdict_refused hw hs

theorem refused {e : ParseError} (hw : w.cursor.current = some t) (hs : s.step t = .error e) :
    Follows w s (throw (.failed e)) Q := Walk.verdict_refused hw hs

theorem ended {e : SyntaxError} (hw : w.cursor.current = none)
    (hs : s.endFault? w.cursor.endPosition = some e) : Follows w s (fail e) Q := by
  have h := Walk.verdict_end (s := s) hw
  rw [hs] at h
  exact h

theorem unexpectedEnd (hw : w.cursor.current = none)
    (hs : s.endFault? w.cursor.endPosition = some ⟨.unexpectedEnd, w.cursor.endPosition⟩) :
    Follows w s Descent.unexpectedEnd Q := by
  have h : Follows w s (Descent.fail ⟨.unexpectedEnd, w.cursor.endPosition⟩) Q := ended hw hs
  exact h

end Follows

/-- What a round leaves: what the next round starts with, or the result of the loop. -/
def Leaves (I : σ → Cursor → Assembly → Prop) (Q : α → Cursor → Assembly → Prop) :
    Round σ α → Cursor → Assembly → Prop
  | .again next => I next
  | .done result => Q result

theorem loop_follows {round : σ → Descent (Round σ α)} {I : σ → Cursor → Assembly → Prop}
    {Q : α → Cursor → Assembly → Prop}
    (hround : ∀ state w s, I state w.cursor s → Follows w s (round state) (Leaves I Q))
    (limit : Nat) {state : σ} (h : I state w.cursor s) : Follows w s (loop round limit state) Q := by
  induction limit generalizing state w s with
  | zero => trivial
  | succ limit ih =>
    have hbegun : Follows { w with rounds := w.rounds + 1 } s
        (round state >>= fun r => r.andThen (loop round limit)) Q := by
      refine Follows.bind (hround state _ s h) fun r w' s' hr => ?_
      cases r with
      | again next => exact ih hr
      | done result => exact .pure hr
    exact hbegun

abbrev Delivers (w : Walk) (s s₀ : Assembly) (x : Descent Expr) : Prop :=
  Follows w s x fun e _ s' => s' = s₀.deliver e

structure Expects (w : Walk) (s : Assembly) : Prop where
  at_token : ∀ t, w.cursor.current = some t → s.step t = s.expression t
  at_end : w.cursor.current = none →
    s.endFault? w.cursor.endPosition = some ⟨.unexpectedEnd, w.cursor.endPosition⟩

def ReadsFrom (kinds : TokenKind → Prop) (x : Descent Expr) : Prop :=
  ∀ w s, Expects w s → (∀ t, w.cursor.current = some t → kinds t.kind) → Delivers w s s x

theorem isAtEnd_iff {c : Cursor} : c.isAtEnd = true ↔ c.current = none := by
  simp [Cursor.isAtEnd, Cursor.current]

section Rounds

variable {item value : Descent Expr}

theorem listRound_follows (h : ReadsFrom (fun _ => True) item) (l : ItemList) (s₀ : Assembly)
    (w : Walk) (items : List Expr) (last : ListEnd) :
    Follows w (s₀.push (l.construct items last))
      (listRound item l (l.itemsAt items last w.cursor.current))
      (Leaves (l.Holds s₀) fun items _ s => s = s₀.deliver (l.close items)) := by
  have hstep := fun t : Token =>
    Assembly.step_items (t := t) l (Assembly.stack_push s₀ (l.construct items last))
  refine Follows.current_bind ?_
  cases hw : w.cursor.current with
  | none => exact .ended hw (by cases l <;> rfl)
  | some t =>
    have ht := hstep t
    rw [ItemList.itemsAt_some]
    dsimp only
    split
    · next hk =>
      rw [if_pos hk] at ht
      refine .following_bind (.advance_bind hw ht (.pure ⟨_, _, rfl, ?_⟩))
      exact (ItemList.itemsAt_comma l _ _).symm
    · next hk =>
      rw [if_neg hk] at ht
      split
      · next hk' =>
        rw [if_pos hk'] at ht
        exact .advance_bind hw ht (.pure rfl)
      · next hk' =>
        rw [if_neg hk'] at ht
        have hexpects : Expects w (s₀.push (l.construct items last)) := by
          refine ⟨fun u hu => ?_, fun hn => ?_⟩
          · rw [hw] at hu
            cases hu
            exact ht
          · rw [hw] at hn
            contradiction
        refine Follows.bind (h w _ hexpects fun _ _ => trivial) fun e w' s hs => .pure ?_
        refine ⟨items ++ [e], .item, ?_, (ItemList.itemsAt_item l _ _).symm⟩
        rw [hs, Assembly.deliver_push_items]

theorem step_object (s₀ : Assembly) (p : Nat) (properties : List (String × Expr)) (t : Token) :
    (s₀.push (.object p properties none)).step t = match t.kind with
      | .comma => .ok (s₀.push (.object p properties none))
      | .braceEnd => .ok (s₀.deliver (.object properties))
      | .identifier => Assembly.fail (.shorthandProperty t.value) t.position
      | .propertyName => .ok (s₀.push (.object p properties (some t.value)))
      | _ => Assembly.unexpected t := rfl

theorem objectRound_follows (h : ReadsFrom (fun _ => True) value) (opener : Token)
    (s₀ : Assembly) (w : Walk) (properties : List (String × Expr)) :
    Follows w (s₀.push (.object opener.position properties none))
      (objectRound value opener properties)
      (Leaves (fun properties _ s => s = s₀.push (.object opener.position properties none))
        fun e _ s => s = s₀.deliver e) := by
  refine Follows.atEnd_bind ?_
  cases hw : w.cursor.current with
  | none =>
    rw [isAtEnd_iff.2 hw]
    exact .ended hw rfl
  | some t =>
    have hend : w.cursor.isAtEnd = false := by
      rw [Bool.eq_false_iff, ne_eq, isAtEnd_iff, hw]
      exact nofun
    rw [hend]
    have hstep := step_object s₀ opener.position properties t
    cases hk : t.kind <;> rw [hk] at hstep
    case comma => exact .advance_bind hw hstep (by rw [hk]; exact .pure rfl)
    case braceEnd => exact .advance_bind hw hstep (by rw [hk]; exact .pure rfl)
    case identifier => exact .advance_refused hw hstep (by rw [hk]; rfl)
    case propertyName =>
      refine .advance_bind hw hstep ?_
      rw [hk]
      refine Follows.bind (h w.next _ ?_ fun _ _ => trivial) fun e w' s hs => .pure hs
      exact ⟨fun _ _ => rfl, fun _ => rfl⟩
    all_goals exact .advance_unexpected hw hstep (by simp only [hk])

theorem step_template (s₀ : Assembly) (p : Nat) (parts : List Expr) (t : Token) :
    (s₀.push (.template p parts)).step t = match t.kind with
      | .string => .ok (s₀.push (.template p (parts ++ [.text t.value])))
      | .expressionStart =>
        .ok ((s₀.push (.template p parts)).push (.interpolation t.position none))
      | .templateEnd => .ok (s₀.deliver (.template parts))
      | _ => Assembly.unexpected t := by
  simp only [Assembly.step, Assembly.stack_push, Assembly.textOr]
  cases t.kind <;> rfl

theorem templateRound_follows {embedded : Token → Descent Expr}
    (h : ∀ opener w s, Assembly.inTemplate s.stack = true →
      Delivers w (s.push (.interpolation opener.position none)) s (embedded opener))
    (opener : Token) (s₀ : Assembly) (w : Walk) (parts : List Expr) :
    Follows w (s₀.push (.template opener.position parts))
      (templateRound embedded opener parts)
      (Leaves (fun parts _ s => s = s₀.push (.template opener.position parts))
        fun e _ s => s = s₀.deliver e) := by
  refine Follows.current_bind ?_
  cases hw : w.cursor.current with
  | none => exact .ended hw rfl
  | some t =>
    have hstep := step_template s₀ opener.position parts t
    dsimp only
    cases hk : t.kind <;> rw [hk] at hstep
    case string => exact .advance_bind hw hstep (.pure rfl)
    case expressionStart =>
      refine .advance_bind hw hstep ?_
      exact Follows.bind (h t w.next _ rfl) fun e w' s hs => .pure hs
    case templateEnd => exact .advance_bind hw hstep (.pure rfl)
    all_goals exact .unexpected hw hstep

theorem step_empty (nodes : Phrase) (t : Token) : (Assembly.mk nodes []).step t = match t.kind with
    | .string => .ok ⟨nodes ++ [.text t.value], []⟩
    | .expressionStart => .ok (Assembly.push ⟨nodes, []⟩ (.interpolation t.position none))
    | .expressionEnd | .braceEnd => .ok ⟨nodes, []⟩
    | _ => Assembly.unexpected t := by
  simp only [Assembly.step, Assembly.textOr]
  cases t.kind <;> rfl

theorem nextNode_follows {interpolation : Token → Descent Expr}
    (h : ∀ opener w s, Assembly.inTemplate s.stack = false →
      Delivers w (s.push (.interpolation opener.position none)) s (interpolation opener))
    (w : Walk) (nodes : Phrase) (hend : w.cursor.isAtEnd = false) :
    Follows w ⟨nodes, []⟩ (nextNode interpolation nodes) fun nodes _ s => s = ⟨nodes, []⟩ := by
  refine Follows.current_bind ?_
  cases hw : w.cursor.current with
  | none =>
    rw [isAtEnd_iff.2 hw] at hend
    contradiction
  | some t =>
    have hstep := step_empty nodes t
    dsimp only
    cases hk : t.kind <;> rw [hk] at hstep
    case string => exact .advance_bind hw hstep (.pure rfl)
    case expressionStart =>
      refine .advance_bind hw hstep ?_
      exact Follows.bind (h t w.next _ rfl) fun e w' s hs => .pure hs
    case expressionEnd | braceEnd => exact .advance_bind hw hstep (.pure rfl)
    all_goals exact .unexpected hw hstep

theorem phraseRound_follows {interpolation : Token → Descent Expr}
    (h : ∀ opener w s, Assembly.inTemplate s.stack = false →
      Delivers w (s.push (.interpolation opener.position none)) s (interpolation opener))
    (w : Walk) (nodes : Phrase) (hend : w.cursor.isAtEnd = false) :
    Follows w ⟨nodes, []⟩ (phraseRound interpolation nodes)
      (Leaves (fun nodes c s => s = ⟨nodes, []⟩ ∧ c.isAtEnd = false)
        fun nodes c s => s = ⟨nodes, []⟩ ∧ c.isAtEnd = true) := by
  refine Follows.bind (nextNode_follows h w nodes hend) fun nodes w' s hs => .atEnd_bind ?_
  cases hend' : w'.cursor.isAtEnd with
  | true => exact .pure ⟨hs, hend'⟩
  | false => exact .pure ⟨hs, hend'⟩

end Rounds

def Task.Meets : (task : Task) → Descent task.Result → Prop
  | .expression, x => ReadsFrom (fun _ => True) x
  | .literal, x => ReadsFrom (·.isLiteral = true) x
  | .call, x => ReadsFrom (· = .functionCall) x
  | .array, x => ReadsFrom (· = .bracketStart) x
  | .object, x => ReadsFrom (· = .braceStart) x
  | .template, x => ReadsFrom (· = .templateStart) x
  | .list l, x => ∀ w (s : Assembly),
    Follows w (s.push (l.construct [] .opened)) x fun items _ s' => s' = s.deliver (l.close items)
  | .interpolation opener, x => ∀ w s, Assembly.inTemplate s.stack = false →
    Delivers w (s.push (.interpolation opener.position none)) s x
  | .embedded opener, x => ∀ w s, Assembly.inTemplate s.stack = true →
    Delivers w (s.push (.interpolation opener.position none)) s x

section Readers

variable {limit : Nat} {read : (task : Task) → Descent task.Result}

theorem advance_ended {f : Token → Descent Expr} {s₀ : Assembly} (hs : Expects w s)
    (hw : w.cursor.current = none) : Delivers w s s₀ (advance >>= f) := by
  have h := Walk.verdict_end (s := s) hw
  rw [hs.at_end hw] at h
  unfold Delivers Follows
  rw [bind_apply, advance_of_none hw]
  exact h

theorem readLiteral_follows : ReadsFrom (·.isLiteral = true) readLiteral := by
  intro w s hs hkind
  cases hw : w.cursor.current with
  | none => exact advance_ended hs hw
  | some t =>
    have hstep := hs.at_token t hw
    have hk := hkind t hw
    have he : s.expression t = (Assembly.literalValue t).map fun v => s.deliver (.literal v) := by
      unfold Assembly.expression
      split <;> simp_all [TokenKind.isLiteral]
    rw [he] at hstep
    cases hv : Assembly.literalValue t with
    | error e =>
      rw [hv] at hstep
      exact .advance_refused hw hstep (by rw [hv])
    | ok v =>
      rw [hv] at hstep
      exact .advance_bind hw hstep (by rw [hv]; exact .pure rfl)

theorem expects_interpolation (w : Walk) (s : Assembly) (p : Nat) :
    Expects w (s.push (.interpolation p none)) := ⟨fun _ _ => rfl, fun _ => rfl⟩

theorem step_interpolation (s : Assembly) (p : Nat) (e : Expr) (t : Token) :
    (s.push (.interpolation p (some e))).step t = match t.kind with
      | .expressionEnd => .ok (s.deliver e)
      | .templateEnd =>
        if Assembly.inTemplate s.stack then Assembly.fail .templateClosedInExpression t.position
        else Assembly.unexpected t
      | _ => Assembly.unexpected t := rfl

variable (h : ∀ task : Task, task.Meets (read task))
include h

theorem readExpression_follows : ReadsFrom (fun _ => True) (readExpression read) := by
  intro w s hs _
  refine Follows.current_bind ?_
  cases hw : w.cursor.current with
  | none => exact .unexpectedEnd hw (hs.at_end hw)
  | some t =>
    have hstep := hs.at_token t hw
    have ht : ∀ u, w.cursor.current = some u → u = t := fun u hu => by
      rw [hw] at hu
      exact (Option.some.inj hu).symm
    dsimp only
    split
    · next hk => exact .advance_bind hw (by rw [hstep, Assembly.expression, hk]) (.pure rfl)
    · next hk => exact h .call w s hs fun u hu => ht u hu ▸ hk
    · next hk => exact h .array w s hs fun u hu => ht u hu ▸ hk
    · next hk => exact h .object w s hs fun u hu => ht u hu ▸ hk
    · next hk => exact h .template w s hs fun u hu => ht u hu ▸ hk
    · split
      · next hk => exact h .literal w s hs fun u hu => ht u hu ▸ hk
      · next hk =>
        refine .unexpected hw ?_
        rw [hstep]
        unfold Assembly.expression
        split <;> simp_all

theorem readItems_follows {kind : TokenKind} {listOf : Token → ItemList}
    (hlist : ∀ (s : Assembly) t, t.kind = kind →
      s.expression t = .ok (s.push ((listOf t).construct [] .opened))) :
    ReadsFrom (· = kind) (readItems read listOf) := by
  intro w s hs hkind
  cases hw : w.cursor.current with
  | none => exact advance_ended hs hw
  | some t =>
    have hstep := (hs.at_token t hw).trans (hlist s t (hkind t hw))
    refine .advance_bind hw hstep ?_
    exact Follows.bind (h (.list (listOf t)) w.next s) fun items w' s' hs' => .pure hs'

theorem readList_follows (l : ItemList) : Task.Meets (.list l) (readList limit read l) := by
  intro w s
  refine Follows.current_bind ?_
  rw [← ItemList.itemsAt_opened l]
  refine loop_follows (I := l.Holds s) ?_ limit ⟨[], .opened, rfl, rfl⟩
  rintro shown w s' ⟨items, last, rfl, rfl⟩
  exact listRound_follows (h .expression) l s w items last

theorem readObject_follows : Task.Meets .object (readObject limit read) := by
  intro w s hs hkind
  cases hw : w.cursor.current with
  | none => exact advance_ended hs hw
  | some t =>
    have hstep : s.step t = .ok (s.push (.object t.position [] none)) := by
      rw [hs.at_token t hw, Assembly.expression, hkind t hw]
    refine .advance_bind hw hstep ?_
    refine loop_follows (I := fun properties _ s' =>
      s' = s.push (.object t.position properties none)) ?_ limit rfl
    rintro properties w s' rfl
    exact objectRound_follows (h .expression) t s w properties

theorem readTemplate_follows : Task.Meets .template (readTemplate limit read) := by
  intro w s hs hkind
  cases hw : w.cursor.current with
  | none => exact advance_ended hs hw
  | some t =>
    have hstep : s.step t = .ok (s.push (.template t.position [])) := by
      rw [hs.at_token t hw, Assembly.expression, hkind t hw]
    refine .advance_bind hw hstep ?_
    refine loop_follows (I := fun parts _ s' => s' = s.push (.template t.position parts)) ?_
      limit rfl
    rintro parts w s' rfl
    exact templateRound_follows (fun t => h (.embedded t)) t s w parts

theorem readInterpolation_follows (opener : Token) :
    Task.Meets (.interpolation opener) (readInterpolation read opener) := by
  intro w s hs
  refine Follows.bind (h .expression w _ (expects_interpolation w s _) fun _ _ => trivial)
    fun e w' s' hs' => ?_
  have hs' : s' = s.push (.interpolation opener.position (some e)) := hs'
  subst hs'
  refine Follows.current_bind ?_
  cases hw : w'.cursor.current with
  | none => exact .ended hw (by simp [Assembly.endFault?, hs])
  | some t =>
    have hstep := step_interpolation s opener.position e t
    rw [hs] at hstep
    dsimp only
    split
    · next hk =>
      rw [hk] at hstep
      exact .advance_bind hw hstep (.pure rfl)
    · next hk =>
      refine .unexpected hw ?_
      rw [hstep]
      split <;> simp_all

theorem readEmbedded_follows (opener : Token) :
    Task.Meets (.embedded opener) (readEmbedded read opener) := by
  intro w s hs
  refine Follows.bind (h .expression w _ (expects_interpolation w s _) fun _ _ => trivial)
    fun e w' s' hs' => ?_
  have hs' : s' = s.push (.interpolation opener.position (some e)) := hs'
  subst hs'
  refine Follows.current_bind ?_
  cases hw : w'.cursor.current with
  | none => exact .ended hw (by simp [Assembly.endFault?, hs])
  | some t =>
    have hstep := step_interpolation s opener.position e t
    rw [hs] at hstep
    dsimp only
    split
    · next hk =>
      rw [hk] at hstep
      exact .refused hw hstep
    · split
      · next hk =>
        rw [hk] at hstep
        exact .advance_bind hw hstep (.pure rfl)
      · refine .unexpected hw ?_
        rw [hstep]
        split <;> simp_all

theorem perform_follows (task : Task) : task.Meets (perform limit read task) := by
  cases task with
  | expression => exact readExpression_follows h
  | literal => exact readLiteral_follows
  | call => exact readItems_follows h fun s t hk => by rw [Assembly.expression, hk]; rfl
  | array => exact readItems_follows h fun s t hk => by rw [Assembly.expression, hk]; rfl
  | object => exact readObject_follows h
  | template => exact readTemplate_follows h
  | list l => exact readList_follows h l
  | interpolation opener => exact readInterpolation_follows h opener
  | embedded opener => exact readEmbedded_follows h opener

end Readers

theorem exhausted_meets (task : Task) : task.Meets (throw .exhausted) := by
  cases task with
  | list l => exact fun _ _ => trivial
  | interpolation opener | embedded opener => exact fun _ _ _ => trivial
  | _ => exact fun _ _ _ _ => trivial

theorem read_follows (limit depth : Nat) (task : Task) : task.Meets (read limit depth task) := by
  induction depth generalizing task with
  | zero => exact exhausted_meets task
  | succ depth ih => exact perform_follows ih task

theorem readPhrase_follows (limit depth : Nat) {ts : List Token} (hts : ts ≠ []) :
    Follows (.start ts) .start (readPhrase limit depth ts) fun nodes c s =>
      s = ⟨nodes, []⟩ ∧ c.isAtEnd = true := by
  have he : ts.isEmpty = false := by simpa using hts
  unfold readPhrase
  rw [he]
  have hstart : (Walk.start ts).cursor.isAtEnd = false := by
    simpa [Walk.start, Cursor.ofTokens, Cursor.isAtEnd] using hts
  refine loop_follows (I := fun nodes c s => s = ⟨nodes, []⟩ ∧ c.isAtEnd = false) ?_ limit
    ⟨rfl, hstart⟩
  rintro nodes w s ⟨rfl, hend⟩
  exact phraseRound_follows (fun t => read_follows limit depth (.interpolation t)) w nodes hend

end Descent

namespace Phrase

variable {limit depth : Nat} {ts : List Token} {w : Walk}

theorem ofTokens_eq_verdict (hts : ts ≠ []) : ofTokens ts = (Walk.start ts).verdict .start := by
  have he : ts.isEmpty = false := by simpa using hts
  rw [ofTokens, he]
  rfl

theorem ofTokens_of_descend_ok {p : Phrase} (h : descend limit depth ts = .ok p w) :
    ofTokens ts = .ok p := by
  by_cases hts : ts = []
  · subst hts
    cases h
    rfl
  · have hfollows := Descent.readPhrase_follows limit depth hts
    unfold Descent.Follows at hfollows
    rw [show Descent.readPhrase limit depth ts (.start ts) = _ from h] at hfollows
    obtain ⟨s, ⟨rfl, hend⟩, hv⟩ := hfollows
    rw [ofTokens_eq_verdict hts, hv, Walk.verdict_end (Descent.isAtEnd_iff.1 hend)]
    rfl

theorem ofTokens_of_descend_failed {e : ParseError}
    (h : descend limit depth ts = .error (.failed e) w) : ofTokens ts = .error e := by
  by_cases hts : ts = []
  · subst hts
    cases h
  · have hfollows := Descent.readPhrase_follows limit depth hts
    unfold Descent.Follows at hfollows
    rw [show Descent.readPhrase limit depth ts (.start ts) = _ from h] at hfollows
    rw [ofTokens_eq_verdict hts]
    exact hfollows

end Phrase

end MessageCatalog
