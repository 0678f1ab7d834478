import MessageCatalog.Proofs.Assembling

/-!
# Progress of readers

A reader that has a result has read at least one token, and never goes past the last one. So each
round of a loop and each call pays for itself with a token: loops together begin at most one round
more than there are tokens, and calls nested three deep for each token and loops of one round more
than there are tokens are never too many.
-/
namespace MessageCatalog

namespace Walk

structure Goes (w w' : Walk) : Prop where
  tokens_eq : w'.cursor.tokens = w.cursor.tokens
  place_le : w.cursor.place ≤ w'.cursor.place
  within : w'.cursor.place = w.cursor.place ∨ w'.cursor.place ≤ w.cursor.tokens.length

theorem Goes.refl (w : Walk) : w.Goes w := ⟨rfl, Nat.le_refl _, .inl rfl⟩

theorem Goes.trans {w w' w'' : Walk} (h : w.Goes w') (h' : w'.Goes w'') : w.Goes w'' := by
  refine ⟨h'.tokens_eq.trans h.tokens_eq, Nat.le_trans h.place_le h'.place_le, ?_⟩
  have hwithin := h.within
  have hwithin' := h'.within
  rw [h.tokens_eq] at hwithin'
  omega

/-- The rounds begun beyond the tokens read. -/
def debt (w : Walk) : Int := w.rounds - w.cursor.place

end Walk

namespace Descent

variable {σ α β : Type} {x : Descent α} {f : α → Descent β} {w w' : Walk}

theorem bind_apply (x : Descent α) (f : α → Descent β) (w : Walk) :
    (x >>= f) w = match x w with
      | .ok a w' => f a w'
      | .error e w' => .error e w' := by
  change EStateM.bind x f w = _
  unfold EStateM.bind
  cases x w <;> rfl

/-- A reader that moves the cursor by at least some steps if it has a result. It raises the debt by
at most `cost` then, and by at most `loss` if it has none. -/
def Moves (steps : Nat) (cost : Int) (loss : Nat) (x : Descent α) : Prop :=
  ∀ w, match x w with
    | .ok _ w' =>
      w.Goes w' ∧ w.cursor.place + steps ≤ w'.cursor.place ∧ w'.debt ≤ w.debt + cost
    | .error _ w' => w.Goes w' ∧ w'.debt ≤ w.debt + loss

abbrev Keeps (x : Descent α) : Prop := Moves 0 0 0 x

abbrev Advances (x : Descent α) : Prop := Moves 1 (-1) 0 x

abbrev Borrows (x : Descent α) : Prop := Moves 1 0 1 x

abbrev Settles (x : Descent α) : Prop := Moves 0 0 1 x

namespace Moves

variable {steps steps₁ steps₂ loss loss₁ loss₂ : Nat} {cost cost₁ cost₂ : Int}

theorem weaken (h : Moves steps₁ cost₁ loss₁ x) (hsteps : steps ≤ steps₁) (hcost : cost₁ ≤ cost)
    (hloss : loss₁ ≤ loss) : Moves steps cost loss x := by
  intro w
  have hx := h w
  cases hw : x w with
  | error e w' =>
    rw [hw] at hx
    exact ⟨hx.1, by omega⟩
  | ok a w' =>
    rw [hw] at hx
    exact ⟨hx.1, by omega, by omega⟩

theorem bind (hx : Moves steps₁ cost₁ loss₁ x) (hf : ∀ a, Moves steps₂ cost₂ loss₂ (f a)) :
    Moves (steps₁ + steps₂) (cost₁ + cost₂) (max loss₁ (cost₁ + loss₂).toNat) (x >>= f) := by
  intro w
  have h := hx w
  rw [bind_apply]
  cases hw : x w with
  | error e w' =>
    rw [hw] at h
    exact ⟨h.1, by omega⟩
  | ok a w' =>
    rw [hw] at h
    have h' := hf a w'
    dsimp only
    cases hw' : f a w' with
    | error e w'' =>
      rw [hw'] at h'
      exact ⟨h.1.trans h'.1, by omega⟩
    | ok b w'' =>
      rw [hw'] at h'
      exact ⟨h.1.trans h'.1, by omega, by omega⟩

theorem pure (a : α) : Keeps (Pure.pure a : Descent α) := fun w => ⟨.refl w, by simp, by simp⟩

theorem throw (e : Halt) :
    Moves steps cost loss (MonadExcept.throw e : Descent α) := fun w => ⟨.refl w, by omega⟩

theorem fail (e : SyntaxError) :
    Moves steps cost loss (Descent.fail e : Descent α) := throw _

theorem unexpected (t : Token) :
    Moves steps cost loss (Descent.unexpected t : Descent α) := fail _

theorem unexpectedEnd :
    Moves steps cost loss (Descent.unexpectedEnd : Descent α) := fun w => ⟨.refl w, by omega⟩

end Moves

section Rules

variable {steps loss : Nat} {cost : Int}

theorem Keeps.bind (hx : Keeps x) (hf : ∀ a, Moves steps cost loss (f a)) :
    Moves steps cost loss (x >>= f) :=
  (Moves.bind hx hf).weaken (by omega) (by omega) (by omega)

theorem Advances.bind (hx : Advances x) (hf : ∀ a, Settles (f a)) : Advances (x >>= f) :=
  (Moves.bind hx hf).weaken (by decide) (by decide) (by decide)

theorem Settles.bind (hx : Settles x) (hf : ∀ a, Keeps (f a)) : Settles (x >>= f) :=
  (Moves.bind hx hf).weaken (by decide) (by decide) (by decide)

theorem Advances.settles (hx : Advances x) : Settles x :=
  hx.weaken (by decide) (by decide) (by decide)

theorem Borrows.settles (hx : Borrows x) : Settles x :=
  hx.weaken (by decide) (by decide) (by decide)

theorem Keeps.settles (hx : Keeps x) : Settles x :=
  hx.weaken (by decide) (by decide) (by decide)

end Rules

theorem current_keeps : Keeps current := fun w => ⟨.refl w, by simp, by simp⟩

theorem following_keeps : Keeps following := fun w => ⟨.refl w, by simp, by simp⟩

theorem atEnd_keeps : Keeps atEnd := fun w => ⟨.refl w, by simp, by simp⟩

theorem beginRound_moves : Moves 0 1 0 beginRound := by
  intro w
  refine ⟨⟨rfl, Nat.le_refl _, .inl rfl⟩, Nat.le_refl _, ?_⟩
  simp only [Walk.debt]
  omega

theorem advance_of_some {t : Token} (h : w.cursor.current = some t) :
    advance w = .ok t w.next := by
  have ha : w.cursor.advance = .ok (t, w.next.cursor) := by
    rw [Cursor.advance, h]
    rfl
  unfold advance
  rw [bind_apply, show (get : Descent Walk) w = .ok w w from rfl]
  dsimp only
  rw [ha]
  rfl

theorem advance_of_none (h : w.cursor.current = none) :
    advance w = .error (.failed (.syntaxError ⟨.unexpectedEnd, w.cursor.endPosition⟩)) w := by
  have ha : w.cursor.advance = .error ⟨.unexpectedEnd, w.cursor.endPosition⟩ := by
    rw [Cursor.advance, h]
  unfold advance
  rw [bind_apply, show (get : Descent Walk) w = .ok w w from rfl]
  dsimp only
  rw [ha]
  rfl

theorem advance_advances : Advances advance := by
  intro w
  cases hw : w.cursor.current with
  | none =>
    rw [advance_of_none hw]
    exact ⟨.refl w, by simp⟩
  | some t =>
    rw [advance_of_some hw]
    have hlt : w.cursor.place < w.cursor.tokens.length := (List.getElem?_eq_some_iff.1 hw).1
    refine ⟨⟨rfl, Nat.le_succ _, .inr hlt⟩, Nat.le_refl _, ?_⟩
    simp only [Walk.debt, Walk.next]
    omega

theorem loop_borrows {round : σ → Descent (Round σ α)} (h : ∀ state, Advances (round state))
    (limit : Nat) (state : σ) : Borrows (loop round limit state) := by
  induction limit generalizing state with
  | zero => exact .throw _
  | succ limit ih =>
    have hround : Advances (round state >>= fun r => r.andThen (loop round limit)) := by
      refine (h state).bind fun r => ?_
      cases r with
      | again next => exact (ih next).settles
      | done result => exact Keeps.settles (.pure result)
    exact (beginRound_moves.bind fun _ => hround).weaken (by decide) (by decide) (by decide)

theorem listRound_advances {item : Descent Expr} (h : Advances item) (l : ItemList)
    (items : List Expr) : Advances (listRound item l items) := by
  refine Keeps.bind current_keeps fun first => ?_
  cases first with
  | none => exact .fail _
  | some t =>
    dsimp only
    split
    · refine Keeps.bind following_keeps fun next => ?_
      exact advance_advances.bind fun _ => Keeps.settles (.pure _)
    · split
      · exact advance_advances.bind fun _ => Keeps.settles (.pure _)
      · exact h.bind fun e => Keeps.settles (.pure _)

theorem objectRound_advances {value : Descent Expr} (h : Advances value) (opener : Token)
    (properties : List (String × Expr)) : Advances (objectRound value opener properties) := by
  refine Keeps.bind atEnd_keeps fun ended => ?_
  cases ended with
  | true => exact .fail _
  | false =>
    refine advance_advances.bind fun t => ?_
    split
    · exact Keeps.settles (.pure _)
    · exact Keeps.settles (.pure _)
    · exact .fail _
    · exact (h.bind fun e => Keeps.settles (.pure _)).settles
    · exact .unexpected _

theorem templateRound_advances {embedded : Token → Descent Expr} (h : ∀ t, Advances (embedded t))
    (opener : Token) (parts : List Expr) : Advances (templateRound embedded opener parts) := by
  refine Keeps.bind current_keeps fun first => ?_
  cases first with
  | none => exact .fail _
  | some t =>
    dsimp only
    split
    · exact advance_advances.bind fun _ => Keeps.settles (.pure _)
    · refine advance_advances.bind fun _ => ?_
      exact ((h t).bind fun e => Keeps.settles (.pure _)).settles
    · exact advance_advances.bind fun _ => Keeps.settles (.pure _)
    · exact .unexpected _

theorem nextNode_advances {interpolation : Token → Descent Expr}
    (h : ∀ t, Advances (interpolation t)) (nodes : Phrase) :
    Advances (nextNode interpolation nodes) := by
  refine Keeps.bind current_keeps fun first => ?_
  cases first with
  | none => exact .unexpectedEnd
  | some t =>
    dsimp only
    split
    · exact advance_advances.bind fun _ => Keeps.settles (.pure _)
    · refine advance_advances.bind fun _ => ?_
      exact ((h t).bind fun e => Keeps.settles (.pure _)).settles
    · exact advance_advances.bind fun _ => Keeps.settles (.pure _)
    · exact advance_advances.bind fun _ => Keeps.settles (.pure _)
    · exact .unexpected _

theorem phraseRound_advances {interpolation : Token → Descent Expr}
    (h : ∀ t, Advances (interpolation t)) (nodes : Phrase) :
    Advances (phraseRound interpolation nodes) := by
  refine (nextNode_advances h nodes).bind fun nodes => ?_
  refine Keeps.bind atEnd_keeps fun ended => ?_
  cases ended with
  | true => exact Keeps.settles (.pure _)
  | false => exact Keeps.settles (.pure _)

def Task.loan : Task → Nat
  | .list _ => 1
  | _ => 0

abbrev Task.Moving (task : Task) (x : Descent task.Result) : Prop :=
  Moves 1 (task.loan - 1) task.loan x

section Readers

variable {limit : Nat} {read : (task : Task) → Descent task.Result}

theorem readExpression_advances (h : ∀ task : Task, task.Moving (read task)) :
    Advances (readExpression read) := by
  refine Keeps.bind current_keeps fun first => ?_
  cases first with
  | none => exact .unexpectedEnd
  | some t =>
    dsimp only
    split
    · exact advance_advances.bind fun _ => Keeps.settles (.pure _)
    · exact h .call
    · exact h .array
    · exact h .object
    · exact h .template
    · split
      · exact h .literal
      · exact .unexpected _

theorem readLiteral_advances : Advances readLiteral := by
  refine advance_advances.bind fun t => ?_
  split
  · exact Keeps.settles (.pure _)
  · exact .throw _

theorem readItems_advances (h : ∀ task : Task, task.Moving (read task)) (listOf : Token → ItemList) :
    Advances (readItems read listOf) := by
  refine advance_advances.bind fun opener => ?_
  have hlist : Borrows (read (.list (listOf opener))) := h _
  exact hlist.settles.bind fun items => .pure _

theorem readList_borrows (h : ∀ task : Task, task.Moving (read task)) (l : ItemList) :
    Borrows (readList limit read l) :=
  Keeps.bind current_keeps fun _ => loop_borrows (listRound_advances (h .expression) l) limit _

theorem readObject_advances (h : ∀ task : Task, task.Moving (read task)) :
    Advances (readObject limit read) :=
  advance_advances.bind fun opener =>
    (loop_borrows (objectRound_advances (h .expression) opener) limit _).settles

theorem readTemplate_advances (h : ∀ task : Task, task.Moving (read task)) :
    Advances (readTemplate limit read) :=
  advance_advances.bind fun opener =>
    (loop_borrows (templateRound_advances (fun t => h (.embedded t)) opener) limit _).settles

theorem readInterpolation_advances (h : ∀ task : Task, task.Moving (read task)) (opener : Token) :
    Advances (readInterpolation read opener) := by
  refine Advances.bind (h .expression) fun e => Keeps.bind current_keeps fun next => ?_
  cases next with
  | none => exact .fail _
  | some t =>
    dsimp only
    split
    · exact (advance_advances.bind fun _ => Keeps.settles (.pure _)).settles
    · exact .unexpected _

theorem readEmbedded_advances (h : ∀ task : Task, task.Moving (read task)) (opener : Token) :
    Advances (readEmbedded read opener) := by
  refine Advances.bind (h .expression) fun e => Keeps.bind current_keeps fun next => ?_
  cases next with
  | none => exact .fail _
  | some t =>
    dsimp only
    split
    · exact .fail _
    · split
      · exact (advance_advances.bind fun _ => Keeps.settles (.pure _)).settles
      · exact .unexpected _

theorem perform_moves (h : ∀ task : Task, task.Moving (read task)) (task : Task) :
    task.Moving (perform limit read task) := by
  cases task with
  | expression => exact readExpression_advances h
  | literal => exact readLiteral_advances
  | call => exact readItems_advances h _
  | array => exact readItems_advances h _
  | object => exact readObject_advances h
  | template => exact readTemplate_advances h
  | list l => exact readList_borrows h l
  | interpolation opener => exact readInterpolation_advances h opener
  | embedded opener => exact readEmbedded_advances h opener

end Readers

theorem read_moves (limit depth : Nat) (task : Task) : task.Moving (read limit depth task) := by
  induction depth generalizing task with
  | zero => exact .throw _
  | succ depth ih => exact perform_moves ih task

theorem readPhrase_settles (limit depth : Nat) (ts : List Token) :
    Settles (readPhrase limit depth ts) := by
  unfold readPhrase
  split
  · exact Keeps.settles (.pure _)
  · have hread := fun t => read_moves limit depth (.interpolation t)
    exact (loop_borrows (phraseRound_advances hread) limit _).settles

end Descent

end MessageCatalog
