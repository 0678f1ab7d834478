import MessageCatalog.Proofs.ReadingProgress

/-!
# Budgets for reading

Between two nested expressions at least one token is read, and there are at most three calls on the
way from one to the other. So calls nested three deep for each token suffice, and a loop never takes
more rounds than there are tokens, and one more.
-/
namespace MessageCatalog

namespace Descent

variable {σ α β : Type} {x : Descent α} {f : α → Descent β} {n k : Nat}

/-- A reader that is not exhausted when at most `n` tokens are left. -/
def Finishes (n : Nat) (x : Descent α) : Prop :=
  ∀ w, w.cursor.place ≤ w.cursor.tokens.length → w.cursor.tokens.length ≤ w.cursor.place + n →
    ∀ w', x w ≠ .error .exhausted w'

namespace Finishes

theorem mono (h : Finishes n x) (hk : k ≤ n) : Finishes k x :=
  fun w hw hn => h w hw (by omega)

theorem bind {steps loss : Nat} {cost : Int} (hx : Finishes n x) (hm : Moves steps cost loss x)
    (hf : ∀ k a, k + steps = n → Finishes k (f a)) : Finishes n (x >>= f) := by
  intro w hw hn w' he
  rw [bind_apply] at he
  have hmove := hm w
  cases hr : x w with
  | error e w₁ =>
    rw [hr] at he
    cases he
    exact hx w hw hn _ hr
  | ok a w₁ =>
    rw [hr] at he hmove
    obtain ⟨hgoes, hsteps, -⟩ := hmove
    have hwithin := hgoes.within
    refine hf (n - steps) a (by omega) w₁ ?_ ?_ w' he <;> rw [hgoes.tokens_eq] <;> omega

theorem pure (a : α) : Finishes n (Pure.pure a : Descent α) := fun _ _ _ _ => nofun

theorem failed (e : ParseError) : Finishes n (throw (.failed e) : Descent α) :=
  fun _ _ _ _ => nofun

theorem fail (e : SyntaxError) : Finishes n (Descent.fail e : Descent α) := failed _

theorem unexpected (t : Token) : Finishes n (Descent.unexpected t : Descent α) := fail _

theorem unexpectedEnd : Finishes n (Descent.unexpectedEnd : Descent α) := fun _ _ _ _ => nofun

end Finishes

section Rules

theorem Finishes.current_bind {f : Option Token → Descent β} (hf : ∀ a, Finishes n (f a)) :
    Finishes n (current >>= f) :=
  Finishes.bind (fun _ _ _ _ => nofun) current_keeps fun k a hk => (hf a).mono (by omega)

theorem Finishes.atEnd_bind {f : Bool → Descent β} (hf : ∀ a, Finishes n (f a)) :
    Finishes n (atEnd >>= f) :=
  Finishes.bind (fun _ _ _ _ => nofun) atEnd_keeps fun k a hk => (hf a).mono (by omega)

theorem advance_finishes : Finishes n advance := by
  intro w _ _ w' he
  cases hw : w.cursor.current with
  | none =>
    rw [advance_of_none hw] at he
    cases he
  | some t =>
    rw [advance_of_some hw] at he
    cases he

theorem Finishes.advance_bind {f : Token → Descent β}
    (hf : ∀ k t, k + 1 = n → Finishes k (f t)) : Finishes n (advance >>= f) :=
  advance_finishes.bind advance_advances hf

theorem Finishes.following_bind {f : Option Token → Descent β} (hf : ∀ a, Finishes n (f a)) :
    Finishes n (following >>= f) :=
  Finishes.bind (fun _ _ _ _ => nofun) following_keeps fun k a hk => (hf a).mono (by omega)

theorem Finishes.then_pure {steps loss : Nat} {cost : Int} (hx : Finishes n x)
    (hm : Moves steps cost loss x) (g : α → β) : Finishes n (x >>= fun a => Pure.pure (g a)) :=
  hx.bind hm fun _ a _ => .pure (g a)

end Rules

theorem loop_finishes {round : σ → Descent (Round σ α)} (hm : ∀ state, Advances (round state))
    {limit : Nat} (hf : ∀ state, Finishes n (round state)) (hn : n < limit) (state : σ) :
    Finishes n (loop round limit state) := by
  induction limit generalizing n state with
  | zero => exact absurd hn (Nat.not_lt_zero n)
  | succ limit ih =>
    have hbegin : Finishes n beginRound := fun _ _ _ _ => nofun
    refine hbegin.bind beginRound_moves fun k _ hk => ?_
    refine Finishes.bind ((hf state).mono (by omega)) (hm state) fun k' r hk' => ?_
    cases r with
    | again next => exact ih (fun state => (hf state).mono (by omega)) (by omega) next
    | done result => exact .pure result

theorem listRound_finishes {item : Descent Expr} (hm : Advances item) (hf : Finishes n item)
    (l : ItemList) (items : List Expr) : Finishes n (listRound item l items) := by
  refine Finishes.current_bind fun first => ?_
  cases first with
  | none => exact .fail _
  | some t =>
    dsimp only
    split
    · exact .following_bind fun next => .advance_bind fun _ _ _ => .pure _
    · split
      · exact .advance_bind fun _ _ _ => .pure _
      · exact hf.then_pure hm _

theorem objectRound_finishes {value : Descent Expr} (hm : Advances value) (hf : Finishes n value)
    (opener : Token) (properties : List (String × Expr)) :
    Finishes n (objectRound value opener properties) := by
  refine Finishes.atEnd_bind fun ended => ?_
  cases ended with
  | true => exact .fail _
  | false =>
    refine Finishes.advance_bind fun k t hk => ?_
    split
    · exact .pure _
    · exact .pure _
    · exact .fail _
    · exact (hf.mono (by omega)).then_pure hm _
    · exact .unexpected _

theorem templateRound_finishes {embedded : Token → Descent Expr} (hm : ∀ t, Advances (embedded t))
    (hf : ∀ k t, k + 1 = n → Finishes k (embedded t)) (opener : Token) (parts : List Expr) :
    Finishes n (templateRound embedded opener parts) := by
  refine Finishes.current_bind fun first => ?_
  cases first with
  | none => exact .fail _
  | some t =>
    dsimp only
    split
    · exact .advance_bind fun _ _ _ => .pure _
    · exact .advance_bind fun k _ hk => (hf k t hk).then_pure (hm t) _
    · exact .advance_bind fun _ _ _ => .pure _
    · exact .unexpected _

theorem phraseRound_finishes {interpolation : Token → Descent Expr}
    (hm : ∀ t, Advances (interpolation t)) (hf : ∀ k t, k + 1 = n → Finishes k (interpolation t))
    (nodes : Phrase) : Finishes n (phraseRound interpolation nodes) := by
  have hnode : Finishes n (nextNode interpolation nodes) := by
    refine Finishes.current_bind fun first => ?_
    cases first with
    | none => exact .unexpectedEnd
    | some t =>
      dsimp only
      split
      · exact .advance_bind fun _ _ _ => .pure _
      · exact .advance_bind fun k _ hk => (hf k t hk).then_pure (hm t) _
      · exact .advance_bind fun _ _ _ => .pure _
      · exact .advance_bind fun _ _ _ => .pure _
      · exact .unexpected _
  refine hnode.bind (nextNode_advances hm nodes) fun k nodes hk => .atEnd_bind fun ended => ?_
  cases ended with
  | true => exact .pure _
  | false => exact .pure _

/-- How many calls there are at most on the way to a reader that reads a token first, that reader
included. -/
def Task.height : Task → Nat
  | .expression => 2
  | .list _ | .interpolation _ | .embedded _ => 3
  | _ => 1

theorem Task.height_pos (task : Task) : 0 < task.height := by
  cases task <;> simp [height]

theorem Task.height_le (task : Task) : task.height ≤ 3 := by
  cases task <;> simp [height]

section Readers

variable {limit depth : Nat} {read : (task : Task) → Descent task.Result}

theorem readExpression_finishes (hf : ∀ task : Task, task.height = 1 → Finishes n (read task)) :
    Finishes n (readExpression read) := by
  refine Finishes.current_bind fun first => ?_
  cases first with
  | none => exact .unexpectedEnd
  | some t =>
    dsimp only
    split
    · exact .advance_bind fun _ _ _ => .pure _
    · exact hf .call rfl
    · exact hf .array rfl
    · exact hf .object rfl
    · exact hf .template rfl
    · split
      · exact hf .literal rfl
      · exact .unexpected _

theorem readLiteral_finishes : Finishes n readLiteral := by
  refine Finishes.advance_bind fun k t hk => ?_
  split
  · exact .pure _
  · exact .failed _

variable (hm : ∀ task : Task, task.Moving (read task))
include hm

theorem readItems_finishes (listOf : Token → ItemList)
    (hf : ∀ k l, k + 1 = n → Finishes k (read (.list l))) :
    Finishes n (readItems read listOf) :=
  .advance_bind fun k opener hk => (hf k (listOf opener) hk).then_pure (hm _) _

theorem readList_finishes (hf : Finishes n (read .expression)) (hn : n < limit) (l : ItemList) :
    Finishes n (readList limit read l) :=
  .current_bind fun _ => loop_finishes (listRound_advances (hm .expression) l)
    (listRound_finishes (hm .expression) hf l) hn _

theorem readObject_finishes (hf : ∀ k, k + 1 = n → Finishes k (read .expression))
    (hn : n < limit) : Finishes n (readObject limit read) :=
  .advance_bind fun k opener hk => loop_finishes (objectRound_advances (hm .expression) opener)
    (objectRound_finishes (hm .expression) (hf k hk) opener) (by omega) _

theorem readTemplate_finishes (hf : ∀ k t, k + 1 = n → Finishes k (read (.embedded t)))
    (hn : n < limit) : Finishes n (readTemplate limit read) :=
  .advance_bind fun k opener hk =>
    (loop_finishes (templateRound_advances (fun t => hm (.embedded t)) opener)
      (templateRound_finishes (fun t => hm (.embedded t)) hf opener) hn _).mono (by omega)

theorem readInterpolation_finishes (hf : Finishes n (read .expression)) (opener : Token) :
    Finishes n (readInterpolation read opener) := by
  refine hf.bind (hm .expression) fun k e hk => .current_bind fun next => ?_
  cases next with
  | none => exact .fail _
  | some t =>
    dsimp only
    split
    · exact .advance_bind fun _ _ _ => .pure _
    · exact .unexpected _

theorem readEmbedded_finishes (hf : Finishes n (read .expression)) (opener : Token) :
    Finishes n (readEmbedded read opener) := by
  refine hf.bind (hm .expression) fun k e hk => .current_bind fun next => ?_
  cases next with
  | none => exact .fail _
  | some t =>
    dsimp only
    split
    · exact .fail _
    · split
      · exact .advance_bind fun _ _ _ => .pure _
      · exact .unexpected _

theorem perform_finishes
    (hf : ∀ (k : Nat) (task : Task), k < limit → 3 * k + task.height ≤ depth →
      Finishes k (read task))
    (hn : n < limit) (task : Task) (h : 3 * n + task.height ≤ depth + 1) :
    Finishes n (perform limit read task) := by
  have hsame : ∀ inner : Task, inner.height < task.height → Finishes n (read inner) :=
    fun inner hi => hf n inner hn (by omega)
  have hfewer : ∀ (k : Nat) (inner : Task), k + 1 = n → Finishes k (read inner) :=
    fun k inner hk => by
      have := task.height_pos
      have := inner.height_le
      exact hf k inner (by omega) (by omega)
  cases task with
  | expression => exact readExpression_finishes fun inner hi => hsame inner (hi ▸ by decide)
  | literal => exact readLiteral_finishes
  | call => exact readItems_finishes hm _ fun k l hk => hfewer k (.list l) hk
  | array => exact readItems_finishes hm _ fun k l hk => hfewer k (.list l) hk
  | object => exact readObject_finishes hm (fun k hk => hfewer k .expression hk) hn
  | template => exact readTemplate_finishes hm (fun k t hk => hfewer k (.embedded t) hk) hn
  | list l => exact readList_finishes hm (hsame .expression (Nat.lt_succ_self 2)) hn l
  | interpolation opener =>
    exact readInterpolation_finishes hm (hsame .expression (Nat.lt_succ_self 2)) opener
  | embedded opener =>
    exact readEmbedded_finishes hm (hsame .expression (Nat.lt_succ_self 2)) opener

end Readers

theorem read_finishes {limit depth n : Nat} (hn : n < limit) (task : Task)
    (h : 3 * n + task.height ≤ depth) : Finishes n (read limit depth task) := by
  induction depth generalizing n task with
  | zero => exact absurd task.height_pos (by omega)
  | succ depth ih =>
    exact perform_finishes (read_moves limit depth) (fun k task hk => ih hk task) hn task h

theorem readPhrase_finishes {limit depth : Nat} {ts : List Token} (hlimit : ts.length < limit)
    (hdepth : 3 * ts.length ≤ depth) : Finishes ts.length (readPhrase limit depth ts) := by
  unfold readPhrase
  split
  · exact .pure _
  · have hmoves := fun t => read_moves limit depth (.interpolation t)
    refine loop_finishes (phraseRound_advances hmoves) (phraseRound_finishes hmoves ?_) hlimit _
    intro k t hk
    exact read_finishes (by omega) _ (by simp only [Task.height]; omega)

end Descent

end MessageCatalog
