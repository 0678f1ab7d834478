import MessageCatalog.Rendering.Evaluation

/-!
# Simulation

Two computations that run on states of different kinds simulate each other along a relation between
states if from related states they give the same value or fail in the same way, and leave related
states. Evaluating a phrase with functions that simulate each other is such a pair of computations,
and so it is for every relation that carries over to sequences of computations.
-/
namespace MessageCatalog

variable {σ τ α β : Type} {R : σ → τ → Prop}

theorem Eval.bind_ok {x : Eval σ α} {f : α → Eval σ β} {s s' : σ} {a : α} (h : x s = .ok a s') :
    (x >>= f) s = f a s' := by
  change EStateM.bind x f s = _
  rw [EStateM.bind, h]

theorem Eval.bind_error {x : Eval σ α} {f : α → Eval σ β} {s s' : σ} {e : RenderError}
    (h : x s = .error e s') : (x >>= f) s = .error e s' := by
  change EStateM.bind x f s = _
  rw [EStateM.bind, h]

theorem Eval.exists_of_bind_ok {x : Eval σ α} {f : α → Eval σ β} {s s' : σ} {b : β}
    (h : (x >>= f) s = .ok b s') : ∃ a s₁, x s = .ok a s₁ ∧ f a s₁ = .ok b s' := by
  cases hx : x s with
  | ok a s₁ => exact ⟨a, s₁, rfl, by rwa [Eval.bind_ok hx] at h⟩
  | error e s₁ =>
    rw [Eval.bind_error hx] at h
    contradiction

theorem Value.write_ok {v : Value} (h : v.hasText = true) (s : σ) :
    (v.write : Eval σ String) s = .ok v.text s := by
  rw [Value.write, Value.text?, if_pos h]
  rfl

theorem Value.write_error {v : Value} (h : v.hasText = false) (s : σ) :
    (v.write : Eval σ String) s = .error .overlongInteger s := by
  rw [Value.write, Value.text?, h]
  rfl

inductive Agree (R : σ → τ → Prop) :
    EStateM.Result RenderError σ α → EStateM.Result RenderError τ α → Prop where
  | ok (a : α) {s : σ} {t : τ} : R s t → Agree R (.ok a s) (.ok a t)
  | error (e : RenderError) {s : σ} {t : τ} : R s t → Agree R (.error e s) (.error e t)

def Simulates (R : σ → τ → Prop) (x : Eval σ α) (y : Eval τ α) : Prop :=
  ∀ s t, R s t → Agree R (x s) (y t)

namespace Simulates

theorem pure (a : α) : Simulates R (Pure.pure a : Eval σ α) (Pure.pure a : Eval τ α) :=
  fun _ _ h => .ok a h

theorem throw (e : RenderError) :
    Simulates R (MonadExcept.throw e : Eval σ α) (MonadExcept.throw e : Eval τ α) :=
  fun _ _ h => .error e h

theorem bind {x : Eval σ α} {y : Eval τ α} {f : α → Eval σ β} {g : α → Eval τ β}
    (hx : Simulates R x y) (hf : ∀ a, Simulates R (f a) (g a)) :
    Simulates R (x >>= f) (y >>= g) := by
  intro s t h
  have ha := hx s t h
  change Agree R (EStateM.bind x f s) (EStateM.bind y g t)
  unfold EStateM.bind
  generalize x s = r at ha ⊢
  generalize y t = r' at ha ⊢
  cases ha with
  | ok a h' => exact hf a _ _ h'
  | error e h' => exact .error e h'

end Simulates

/-- A relation between computations that carries over to what is composed of them. -/
structure Compositional (Rel : ∀ {α : Type}, Eval σ α → Eval τ α → Prop) : Prop where
  pure : ∀ {α : Type} (a : α), Rel (Pure.pure a) (Pure.pure a)
  throw : ∀ {α : Type} (e : RenderError), Rel (α := α) (MonadExcept.throw e) (MonadExcept.throw e)
  bind : ∀ {α β : Type} {x : Eval σ α} {y : Eval τ α} {f : α → Eval σ β} {g : α → Eval τ β},
    Rel x y → (∀ a, Rel (f a) (g a)) → Rel (x >>= f) (y >>= g)

theorem Simulates.compositional (R : σ → τ → Prop) : Compositional (Simulates R) :=
  ⟨.pure, .throw, .bind⟩

theorem Compositional.lift {Rel : ∀ {α : Type}, Eval σ α → Eval τ α → Prop}
    (h : Compositional Rel) (r : Except RenderError α) :
    Rel (Eval.lift r : Eval σ α) (Eval.lift r : Eval τ α) := by
  cases r with
  | ok a => exact h.pure a
  | error e => exact h.throw e

section Evaluation

variable {Rel : ∀ {α : Type}, Eval σ α → Eval τ α → Prop}
  {call : Callable → List Value → Eval σ Value} {call' : Callable → List Value → Eval τ Value}

mutual

theorem Expr.evaluate_related (h : Compositional Rel) (hc : ∀ f vs, Rel (call f vs) (call' f vs))
    (locals : Locals) (e : Expr) : Rel (e.evaluate call locals) (e.evaluate call' locals) := by
  cases e with
  | literal v => exact h.pure v
  | identifier name => exact h.pure _
  | call name arguments =>
    have hrun : ∀ f, Rel (evaluateAll call locals arguments >>= call f)
        (evaluateAll call' locals arguments >>= call' f) := fun f =>
      h.bind (evaluateAll_related h hc locals arguments) (hc f)
    rw [evaluate, evaluate]
    split
    · exact h.bind (h.pure _) hrun
    · exact h.bind (h.throw _) hrun
  | array elements => exact h.bind (evaluateAll_related h hc locals elements) fun _ => h.pure _
  | object properties =>
    exact h.bind (evaluateProperties_related h hc locals properties) fun _ => h.pure _
  | template parts => exact h.bind (evaluateText_related h hc locals parts) fun _ => h.pure _
  | unknown kind => exact h.throw _

theorem Expr.evaluateAll_related (h : Compositional Rel)
    (hc : ∀ f vs, Rel (call f vs) (call' f vs)) (locals : Locals) (es : List Expr) :
    Rel (evaluateAll call locals es) (evaluateAll call' locals es) := by
  cases es with
  | nil => exact h.pure _
  | cons e es =>
    exact h.bind (e.evaluate_related h hc locals) fun _ =>
      h.bind (evaluateAll_related h hc locals es) fun _ => h.pure _

theorem Expr.evaluateProperties_related (h : Compositional Rel)
    (hc : ∀ f vs, Rel (call f vs) (call' f vs)) (locals : Locals) (ps : List (String × Expr)) :
    Rel (evaluateProperties call locals ps) (evaluateProperties call' locals ps) := by
  cases ps with
  | nil => exact h.pure _
  | cons p ps =>
    obtain ⟨name, e⟩ := p
    exact h.bind (e.evaluate_related h hc locals) fun _ =>
      h.bind (evaluateProperties_related h hc locals ps) fun _ => h.pure _

theorem Expr.evaluateText_related (h : Compositional Rel)
    (hc : ∀ f vs, Rel (call f vs) (call' f vs)) (locals : Locals) (es : List Expr) :
    Rel (evaluateText call locals es) (evaluateText call' locals es) := by
  cases es with
  | nil => exact h.pure _
  | cons e es =>
    exact h.bind (e.evaluate_related h hc locals) fun v => h.bind (h.lift _) fun _ =>
      h.bind (evaluateText_related h hc locals es) fun _ => h.pure _

end

theorem Phrase.evaluate_related (h : Compositional Rel) (hc : ∀ f vs, Rel (call f vs) (call' f vs))
    (locals : Locals) (p : Phrase) : Rel (p.evaluate call locals) (p.evaluate call' locals) :=
  Expr.evaluateAll_related h hc locals p

end Evaluation

end MessageCatalog
