import MessageCatalog.Proofs.Simulation
import MessageCatalog.Rendering.Host

/-!
# Rendered text

The text of a phrase is the texts of its parts one after the other, so the parts may be rendered in
portions. There is no text if one of the parts has none, and it is all the same which one. The
record of calls only grows while a phrase is evaluated and nothing depends on what is in it, so a
phrase leaves the same calls after other calls as alone.
-/
namespace MessageCatalog

def bothTexts (s t : Option String) : Option String := s.bind fun s => t.map (s ++ ·)

namespace Value

theorem textItems_append (vs ws : List Value) :
    textItems (vs ++ ws) = textItems vs ++ textItems ws := by
  rw [textItems_eq_map, textItems_eq_map, textItems_eq_map, List.map_append]

theorem joinText_cons (v : Value) (vs : List Value) : joinText (v :: vs) = v.text ++ joinText vs :=
  String.join_cons

theorem joinText_append (vs ws : List Value) :
    joinText (vs ++ ws) = joinText vs ++ joinText ws := by
  rw [joinText, textItems_append, String.join_append]
  rfl

theorem joinText?_append (vs ws : List Value) :
    joinText? (vs ++ ws) = bothTexts (joinText? vs) (joinText? ws) := by
  simp only [joinText?, allHaveText_eq_all, List.all_append, joinText_append]
  cases vs.all hasText <;> cases ws.all hasText <;> rfl

theorem joinText?_cons (v : Value) (vs : List Value) :
    joinText? (v :: vs) = bothTexts v.text? (joinText? vs) := by
  have hv : joinText? [v] = v.text? := by simp [joinText?, text?, allHaveText, joinText, textItems]
  rw [← hv, ← joinText?_append]
  rfl

theorem joinText?_str (s : String) : joinText? [.str s] = some s := by
  simp [joinText?, allHaveText, hasText, joinText, textItems, text]

end Value

namespace Phrase

section Render

variable {σ : Type} {call : Callable → List Value → Eval σ Value} {locals : Locals}

/-- The text of a phrase after all its parts have been evaluated, none if one of them has no text.
-/
def joined (call : Callable → List Value → Eval σ Value) (locals : Locals) (p : Phrase) :
    Eval σ (Option String) := do
  return Value.joinText? (← p.evaluate call locals)

def render (call : Callable → List Value → Eval σ Value) (locals : Locals) (p : Phrase) :
    Eval σ String := do
  Value.writeAll (← p.evaluate call locals)

theorem render_eq_joined (p : Phrase) :
    render call locals p = p.joined call locals >>= fun s => Eval.lift (written s) := by
  simp [render, joined, Value.writeAll]

theorem evaluate_append (p q : Phrase) :
    evaluate call locals (p ++ q) = do
      let vs ← p.evaluate call locals
      let ws ← q.evaluate call locals
      return vs ++ ws := by
  induction p with
  | nil => simp [evaluate, Expr.evaluateAll]
  | cons e p ih =>
    simp only [evaluate] at ih
    simp only [evaluate, List.cons_append, Expr.evaluateAll, ih]
    simp

theorem joined_append (p q : Phrase) :
    joined call locals (p ++ q) = do
      let s ← p.joined call locals
      let t ← q.joined call locals
      return bothTexts s t := by
  simp only [joined, evaluate_append]
  simp [Value.joinText?_append]

theorem joined_cons (e : Expr) (p : Phrase) :
    joined call locals (e :: p) = do
      let v ← e.evaluate call locals
      let t ← p.joined call locals
      return bothTexts v.text? t := by
  simp [joined, evaluate, Expr.evaluateAll, Value.joinText?_cons]

theorem joined_text (s : String) : joined call locals [.text s] = pure (some s) := by
  simp [joined, evaluate, Expr.text, Expr.evaluateAll, Expr.evaluate, Value.joinText?_str]

end Render

/-- Whether two phrases have the same text, whatever the values of names are and what functions do.
-/
def SameText (p q : Phrase) : Prop :=
  ∀ (σ : Type) (call : Callable → List Value → Eval σ Value) (locals : Locals),
    p.joined call locals = q.joined call locals

namespace SameText

variable {p p' q q' : Phrase}

theorem refl (p : Phrase) : SameText p p := fun _ _ _ => rfl

theorem symm (h : SameText p q) : SameText q p := fun σ call locals => (h σ call locals).symm

theorem trans (h : SameText p q) (h' : SameText q q') : SameText p q' := fun σ call locals =>
  (h σ call locals).trans (h' σ call locals)

theorem append (hp : SameText p p') (hq : SameText q q') : SameText (p ++ q) (p' ++ q') := by
  intro σ call locals
  rw [joined_append, joined_append, hp, hq]

end SameText

theorem sameText_empty : SameText [.text ""] [] := fun _ _ _ => joined_text ""

def plain (cs : List Char) : Phrase := if cs.isEmpty then [] else [.text (String.ofList cs)]

theorem joined_plain {σ : Type} {call : Callable → List Value → Eval σ Value} {locals : Locals}
    (cs : List Char) : joined call locals (plain cs) = pure (some (String.ofList cs)) := by
  cases cs with
  | nil => rfl
  | cons c cs => exact joined_text _

theorem sameText_plain_append (cs ds : List Char) :
    SameText (plain (cs ++ ds)) (plain cs ++ plain ds) := by
  intro σ call locals
  simp [joined_append, joined_plain, bothTexts]

end Phrase

namespace Host

def outcome {α : Type} (x : Eval (List HostCall) α) (log : List HostCall) :
    Except RenderError α × List HostCall :=
  match x log with
  | .ok a log => (.ok a, log)
  | .error e log => (.error e, log)

/-- Whether a computation adds its calls to those there are, and does not look at them. -/
def IgnoresCalls {α : Type} (x : Eval (List HostCall) α) : Prop :=
  ∀ log, Simulates (fun s t => s = log ++ t) x x

section Outcome

variable {α β : Type} {x : Eval (List HostCall) α}

theorem outcome_bind (x : Eval (List HostCall) α) (f : α → Eval (List HostCall) β)
    (log : List HostCall) : outcome (x >>= f) log = match outcome x log with
      | (.ok a, log) => outcome (f a) log
      | (.error e, log) => (.error e, log) := by
  change (match EStateM.bind x f log with
    | .ok b log => (Except.ok b, log)
    | .error e log => (.error e, log)) = _
  unfold EStateM.bind outcome
  cases x log <;> rfl

theorem IgnoresCalls.outcome_after (h : IgnoresCalls x) (log : List HostCall) :
    outcome x log = ((outcome x []).1, log ++ (outcome x []).2) := by
  have hafter := h log log [] (List.append_nil log).symm
  unfold outcome
  generalize x log = after at hafter ⊢
  generalize x [] = alone at hafter ⊢
  cases hafter with
  | ok a ht => rw [ht]
  | error e ht => rw [ht]

theorem ignoresCalls_modify (call : HostCall) :
    IgnoresCalls (modify (· ++ [call]) : Eval (List HostCall) Unit) := by
  intro log s t h
  subst h
  exact .ok () (List.append_assoc log t _)

end Outcome

variable {host : Host} {p q r : Phrase} {locals : Locals}

theorem ignoresCalls_call (f : Callable) (vs : List Value) : IgnoresCalls (host.call f vs) := by
  intro log
  cases f with
  | helper g => exact .pure _
  | host g =>
    refine .bind (ignoresCalls_modify _ log) fun _ => ?_
    cases host.run g vs with
    | ok v => exact .pure v
    | error e => exact .throw _

theorem ignoresCalls_joined {call : Callable → List Value → Eval (List HostCall) Value}
    (hcall : ∀ f vs, IgnoresCalls (call f vs)) (p : Phrase) (locals : Locals) :
    IgnoresCalls (p.joined call locals) := fun log =>
  have hparts := p.evaluate_related (Simulates.compositional _) (fun f vs => hcall f vs log) locals
  .bind hparts fun _ => .pure _

def joined (host : Host) (p : Phrase) (locals : Locals) :
    Except RenderError (Option String) × List HostCall :=
  ((host.evaluate p locals).1.map Value.joinText?, (host.evaluate p locals).2)

def shown (result : Except RenderError (Option String) × List HostCall) :
    Except RenderError String × List HostCall :=
  (result.1.bind written, result.2)

def render (host : Host) (p : Phrase) (locals : Locals) :
    Except RenderError String × List HostCall :=
  shown (host.joined p locals)

theorem joined_eq (p : Phrase) (locals : Locals) :
    host.joined p locals = outcome (p.joined host.call locals) [] := by
  have hp : p.joined host.call locals =
      EStateM.bind (p.evaluate host.call locals) fun vs => pure (Value.joinText? vs) := rfl
  rw [outcome, hp, EStateM.bind, joined, evaluate]
  cases p.evaluate host.call locals [] <;> rfl

def asPart (result : Except RenderError String × List HostCall) :
    Except RenderError (Option String) × List HostCall :=
  (result.1.map some, result.2)

theorem outcome_map (x : Eval (List HostCall) String) (log : List HostCall) :
    outcome (some <$> x) log = asPart (outcome x log) := by
  rw [map_eq_pure_bind, outcome_bind]
  obtain ⟨result | result, log⟩ := outcome x log <;> rfl

theorem outcome_written (x : Eval (List HostCall) (Option String)) (log : List HostCall) :
    outcome (x >>= fun s => Eval.lift (written s)) log = shown (outcome x log) := by
  rw [outcome_bind]
  obtain ⟨result | result, log⟩ := outcome x log
  · rfl
  · cases result <;> rfl

theorem render_eq (p : Phrase) (locals : Locals) :
    host.render p locals = outcome (p.render host.call locals) [] := by
  rw [Phrase.render_eq_joined, outcome_written, render, joined_eq]

theorem joined_of_sameText (h : p.SameText q) (locals : Locals) :
    host.joined p locals = host.joined q locals := by
  rw [joined_eq, joined_eq, h]

/-- One phrase and then another: a failure of the first leaves no more calls, and otherwise the
texts and the calls come one after the other. -/
structure Follows (first second both : Except RenderError (Option String) × List HostCall) :
    Prop where
  ok : ∀ s t, first.1 = .ok s → second.1 = .ok t → both = (.ok (bothTexts s t), first.2 ++ second.2)
  firstFails : ∀ e, first.1 = .error e → both = first
  secondFails : ∀ s e, first.1 = .ok s → second.1 = .error e →
    both = (.error e, first.2 ++ second.2)

theorem Follows.unique {first second both both' : Except RenderError (Option String) × List HostCall}
    (h : Follows first second both) (h' : Follows first second both') : both = both' := by
  obtain ⟨e | s, log⟩ := first
  · exact (h.firstFails e rfl).trans (h'.firstFails e rfl).symm
  · obtain ⟨e | t, log'⟩ := second
    · exact (h.secondFails s e rfl rfl).trans (h'.secondFails s e rfl rfl).symm
    · exact (h.ok s t rfl rfl).trans (h'.ok s t rfl rfl).symm

theorem follows_outcome (x : Eval (List HostCall) (Option String))
    {y : Eval (List HostCall) (Option String)} (hy : IgnoresCalls y) :
    Follows (outcome x []) (outcome y []) (outcome (do
      let s ← x
      let t ← y
      return bothTexts s t) []) := by
  rw [outcome_bind]
  obtain ⟨result | result, log⟩ := outcome x []
  · exact ⟨by simp, fun _ _ => rfl, by simp⟩
  · -- The second runs after the calls of the first; alone it makes the same calls.
    dsimp only
    rw [outcome_bind, hy.outcome_after log]
    obtain ⟨result' | result', log'⟩ := outcome y []
    · exact ⟨by simp, by simp, by simp⟩
    · refine ⟨?_, by simp, by simp⟩
      rintro s t ⟨⟩ ⟨⟩
      rfl

theorem joined_append (p q : Phrase) (locals : Locals) :
    Follows (host.joined p locals) (host.joined q locals) (host.joined (p ++ q) locals) := by
  have hq : IgnoresCalls (q.joined host.call locals) := ignoresCalls_joined ignoresCalls_call q locals
  have happend : (p ++ q : Phrase).joined host.call locals = _ := Phrase.joined_append p q
  rw [joined_eq p, joined_eq q, joined_eq (p ++ q), happend]
  exact follows_outcome _ hq

end Host

end MessageCatalog
