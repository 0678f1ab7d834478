import MessageCatalog.Proofs.Simulation
import MessageCatalog.Proofs.Spelling
import MessageCatalog.Rendering.Host

/-!
# Evaluating known nodes

An evaluation can fail in four ways: at a node that no rule covers, at a call whose name stands for
no function, in a function that runs, and in a template at a value without text. Where all nodes are
known the first does not happen, and where all values at hand have a text, nor does the last.
-/
namespace MessageCatalog

inductive Expr.IsKnown : Expr → Prop where
  | literal (v : Value) : IsKnown (.literal v)
  | identifier (name : String) : IsKnown (.identifier name)
  | call (callee : String) {es : List Expr} : (∀ e ∈ es, IsKnown e) → IsKnown (.call callee es)
  | array {es : List Expr} : (∀ e ∈ es, IsKnown e) → IsKnown (.array es)
  | object {ps : List (String × Expr)} : (∀ p ∈ ps, IsKnown p.2) → IsKnown (.object ps)
  | template {es : List Expr} : (∀ e ∈ es, IsKnown e) → IsKnown (.template es)

section Calls

variable {σ α β : Type} {call : Callable → List Value → Eval σ Value} {locals : Locals}

/-- Why a call fails, and the state in which it leaves off: its name has no value, or a value that
is no function, or its function has just failed. -/
inductive CallFailure (call : Callable → List Value → Eval σ Value) (locals : Locals) :
    RenderError → σ → Prop where
  | notDefined {name : String} (s : σ) :
      locals.value name = .undefined → CallFailure call locals (.notDefined name) s
  | notAFunction {name : String} (s : σ) : locals.value name ≠ .undefined →
      (∀ f, locals.value name ≠ .function f) → CallFailure call locals (.notAFunction name) s
  | raised {name : String} {f : Callable} {arguments : List Value} {s s' : σ} {e : RenderError} :
      locals.value name = .function f → call f arguments s = .error e s' →
      CallFailure call locals e s'

theorem Expr.value_of_callee {name : String} {f : Callable}
    (h : Expr.callee locals name = .ok f) : locals.value name = .function f := by
  unfold callee at h
  split at h
  · contradiction
  · next hv =>
    cases h
    exact hv
  · contradiction

theorem CallFailure.of_callee {name : String} {e : RenderError}
    (h : Expr.callee locals name = .error e) (s : σ) : CallFailure call locals e s := by
  unfold Expr.callee at h
  split at h
  · next hv =>
    cases h
    exact .notDefined s hv
  · contradiction
  · next hundefined hfunction =>
    cases h
    exact .notAFunction s hundefined hfunction

structure GivesTexts (call : Callable → List Value → Eval σ Value) (locals : Locals) : Prop where
  values : ∀ name, (locals.value name).hasText = true
  results : ∀ f vs s v s', Value.allHaveText vs = true → call f vs s = .ok v s' → v.hasText = true

/-- A computation that gives a value with some property, or fails because of a call. It may fail for
the want of a text too, but only if some value at hand has none. -/
def FailsInCalls (call : Callable → List Value → Eval σ Value) (locals : Locals) (P : α → Prop)
    (x : Eval σ α) : Prop :=
  ∀ s, match x s with
    | .ok a _ => P a
    | .error e s' =>
      CallFailure call locals e s' ∨ e = .overlongInteger ∧ ¬ GivesTexts call locals

namespace FailsInCalls

variable {P : α → Prop} {Q : β → Prop} {x : Eval σ α} {f : α → Eval σ β}

theorem pure {a : α} (h : P a) : FailsInCalls call locals P (Pure.pure a : Eval σ α) := fun _ => h

theorem throw {e : RenderError} (h : ∀ s, CallFailure call locals e s) :
    FailsInCalls call locals P (MonadExcept.throw e : Eval σ α) := fun s => .inl (h s)

theorem bind (hx : FailsInCalls call locals P x)
    (hf : ∀ a, P a → FailsInCalls call locals Q (f a)) : FailsInCalls call locals Q (x >>= f) := by
  intro s
  have h := hx s
  cases hs : x s with
  | ok a s' =>
    rw [hs] at h
    rw [Eval.bind_ok hs]
    exact hf a h s'
  | error e s' =>
    rw [hs] at h
    rw [Eval.bind_error hs]
    exact h

theorem run {name : String} {g : Callable} {arguments : List Value}
    (h : locals.value name = .function g)
    (ha : GivesTexts call locals → Value.allHaveText arguments = true) :
    FailsInCalls call locals (fun v => GivesTexts call locals → v.hasText = true)
      (call g arguments) := by
  intro s
  split
  · next hs => exact fun htexts => htexts.results _ _ _ _ _ (ha htexts) hs
  · next hs => exact .inl (.raised h hs)

theorem write {v : Value} (hv : GivesTexts call locals → v.hasText = true) :
    FailsInCalls call locals (fun _ => True) (v.write : Eval σ String) := by
  intro s
  cases htext : v.hasText with
  | true =>
    rw [Value.write_ok htext]
    trivial
  | false =>
    rw [Value.write_error htext]
    exact .inr ⟨rfl, fun htexts => by simp [htext] at hv; exact hv htexts⟩

end FailsInCalls

variable {Literal : Value → Prop}

mutual

theorem Expr.evaluate_failsInCalls (hliteral : ∀ v, Literal v → v.hasText = true) (e : Expr)
    (h : e.WellFormed Literal) :
    FailsInCalls call locals (fun v => GivesTexts call locals → v.hasText = true)
      (e.evaluate call locals) := by
  cases h with
  | literal hv => exact .pure fun _ => hliteral _ hv
  | identifier hn => exact .pure fun htexts => htexts.values _
  | @call name arguments _ harguments =>
    rw [evaluate]
    split
    · next f hf =>
      have hvalue := value_of_callee hf
      refine .bind (P := (· = f)) (.pure rfl) fun g hg => ?_
      subst hg
      exact .bind (evaluateAll_failsInCalls hliteral arguments harguments) fun _ hvs =>
        .run hvalue hvs.2
    · next he => exact .bind (P := fun _ => False) (.throw (.of_callee he)) fun _ hg => hg.elim
  | @array elements helements =>
    exact .bind (evaluateAll_failsInCalls hliteral elements helements) fun _ hvs => .pure hvs.2
  | @object properties _ _ hproperties =>
    exact .bind (evaluateProperties_failsInCalls hliteral properties hproperties) fun _ hvs =>
      .pure hvs
  | @template parts hparts =>
    exact .bind (evaluateText_failsInCalls hliteral parts hparts) fun _ _ => .pure fun _ => rfl

theorem Expr.evaluateAll_failsInCalls (hliteral : ∀ v, Literal v → v.hasText = true)
    (es : List Expr) (h : ∀ e ∈ es, e.WellFormed Literal) :
    FailsInCalls call locals (fun values => values.length = es.length ∧
        (GivesTexts call locals → Value.allHaveText values = true))
      (Expr.evaluateAll call locals es) := by
  cases es with
  | nil => exact .pure ⟨rfl, fun _ => rfl⟩
  | cons e es =>
    obtain ⟨he, hes⟩ := List.forall_mem_cons.1 h
    refine .bind (e.evaluate_failsInCalls hliteral he) fun v hv =>
      .bind (evaluateAll_failsInCalls hliteral es hes) fun vs hvs => .pure ⟨?_, fun htexts => ?_⟩
    · exact congrArg (· + 1) hvs.1
    · rw [Value.allHaveText, hv htexts, hvs.2 htexts]
      rfl

theorem Expr.evaluateProperties_failsInCalls (hliteral : ∀ v, Literal v → v.hasText = true)
    (ps : List (String × Expr)) (h : ∀ p ∈ ps, p.2.WellFormed Literal) :
    FailsInCalls call locals
      (fun entries => GivesTexts call locals → Value.entriesHaveText entries = true)
      (Expr.evaluateProperties call locals ps) := by
  cases ps with
  | nil => exact .pure fun _ => rfl
  | cons p ps =>
    obtain ⟨name, e⟩ := p
    obtain ⟨he, hps⟩ := List.forall_mem_cons.1 h
    refine .bind (e.evaluate_failsInCalls hliteral he) fun v hv =>
      .bind (evaluateProperties_failsInCalls hliteral ps hps) fun vs hvs => .pure fun htexts => ?_
    rw [Value.entriesHaveText, hv htexts, hvs htexts]
    rfl

theorem Expr.evaluateText_failsInCalls (hliteral : ∀ v, Literal v → v.hasText = true)
    (es : List Expr) (h : ∀ e ∈ es, e.WellFormed Literal) :
    FailsInCalls call locals (fun _ => True) (Expr.evaluateText call locals es) := by
  cases es with
  | nil => exact .pure trivial
  | cons e es =>
    obtain ⟨he, hes⟩ := List.forall_mem_cons.1 h
    exact .bind (e.evaluate_failsInCalls hliteral he) fun v hv => .bind (.write hv) fun _ _ =>
      .bind (evaluateText_failsInCalls hliteral es hes) fun _ _ => .pure trivial

end

theorem Phrase.evaluate_failsInCalls (hliteral : ∀ v, Literal v → v.hasText = true) (p : Phrase)
    (h : ∀ e ∈ p, e.WellFormed Literal) :
    FailsInCalls call locals (fun parts => parts.length = p.length) (p.evaluate call locals) := by
  intro s
  have hall : FailsInCalls call locals (fun values => values.length = p.length ∧
      (GivesTexts call locals → Value.allHaveText values = true))
      (Expr.evaluateAll call locals p) := Expr.evaluateAll_failsInCalls hliteral p h
  have hp := hall s
  rw [evaluate]
  split at hp
  · exact hp.1
  · exact hp

theorem Phrase.evaluate_template_overlong {name : String}
    (h : (locals.value name).hasText = false) (s : σ) :
    evaluate call locals [.template [.identifier name]] s = .error .overlongInteger s := by
  have htext : Expr.evaluateText call locals [.identifier name] s = .error .overlongInteger s :=
    (Eval.bind_ok rfl).trans (Eval.bind_error (Value.write_error h s))
  have htemplate : (Expr.template [.identifier name]).evaluate call locals s =
      .error .overlongInteger s := Eval.bind_error htext
  exact Eval.bind_error htemplate

end Calls

namespace Host

variable {host : Host}

theorem call_host (g : HostFunction) (arguments : List Value) (log : List HostCall) :
    host.call (.host g) arguments log = match host.run g arguments with
      | .ok v => .ok v (log ++ [⟨g, arguments⟩])
      | .error e => .error (.host e) (log ++ [⟨g, arguments⟩]) := by
  rw [call]
  cases host.run g arguments <;> rfl

end Host

end MessageCatalog
