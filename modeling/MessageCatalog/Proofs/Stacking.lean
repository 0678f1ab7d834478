import MessageCatalog.Proofs.RoundTrip

/-!
# Assemblies on top of others

What is read where other constructs are open is read on top of them: the expressions of the
finished top-level nodes go to the construct that is open there, and all else stays as it is alone.
Plain text has to be read there, since that is what an assembly reads first.
-/
namespace MessageCatalog

namespace Assembly

variable {base s s' : Assembly} {t : Token}

def onTop (base s : Assembly) : Assembly :=
  let base' := s.parts.foldl deliver base
  ⟨base'.parts, s.stack ++ base'.stack⟩

theorem onTop_nil (base : Assembly) (parts : List Expr) :
    base.onTop ⟨parts, []⟩ = parts.foldl deliver base := rfl

theorem onTop_push (base s : Assembly) (c : Construct) :
    base.onTop (s.push c) = (base.onTop s).push c := rfl

theorem onTop_update {c : Construct} {below : List Construct} (hs : s.stack = c :: below)
    (base : Assembly) (d : Construct) : base.onTop (s.update d) = (base.onTop s).update d := by
  simp [onTop, update, hs]

theorem onTop_deliver (base s : Assembly) (e : Expr) :
    base.onTop (s.deliver e) = (base.onTop s).deliver e := by
  obtain ⟨parts, stack⟩ := s
  cases stack with
  | nil =>
    have hd : deliver ⟨parts, []⟩ e = ⟨parts ++ [e], []⟩ := rfl
    rw [hd, onTop_nil, onTop_nil, List.foldl_append]
    rfl
  | cons c below =>
    cases c with
    | interpolation p e' => cases e' <;> rfl
    | object p properties pending => cases pending <;> rfl
    | _ => rfl

theorem onTop_close {c : Construct} {below : List Construct} (hs : s.stack = c :: below)
    (base : Assembly) (e : Expr) : base.onTop (s.close e) = (base.onTop s).close e := by
  rw [close, onTop_deliver, close]
  simp [onTop, hs]

theorem AtText.foldl_deliver (h : base.AtText) (es : List Expr) :
    (es.foldl Assembly.deliver base).AtText := by
  induction es generalizing base with
  | nil => exact h
  | cons e es ih => exact ih (h.deliver e)

theorem expression_onTop (base s : Assembly) (t : Token) :
    ((base.onTop s).expression t).toOption = (s.expression t).toOption.map base.onTop := by
  have hdeliver := onTop_deliver base s
  unfold expression
  split
  · simp only [Except.toOption, Option.map, hdeliver]
  iterate 4 rfl
  · split
    · cases literalValue t with
      | ok v => simp only [Except.map, Except.toOption, Option.map, hdeliver]
      | error e => rfl
    · rfl

theorem textOr_onTop {other other' : Except ParseError Assembly}
    (h : other'.toOption = other.toOption.map base.onTop) :
    ((base.onTop s).textOr t other').toOption = (s.textOr t other).toOption.map base.onTop := by
  unfold textOr
  split
  · simp only [Except.toOption, Option.map, onTop_deliver]
  · rfl
  · exact h

theorem step_items_onTop (l : ItemList) {items : List Expr} {last : ListEnd}
    {below : List Construct} (hs : s.stack = l.construct items last :: below) (base : Assembly)
    (t : Token) : ((base.onTop s).step t).toOption = (s.step t).toOption.map base.onTop := by
  have hs' : (base.onTop s).stack =
      l.construct items last :: (below ++ (s.parts.foldl deliver base).stack) := by
    rw [onTop, hs]
    rfl
  rw [step_items l hs', step_items l hs]
  by_cases hcomma : t.kind = .comma
  · rw [if_pos hcomma, if_pos hcomma, Except.toOption, ← onTop_update hs]
    rfl
  · rw [if_neg hcomma, if_neg hcomma]
    by_cases hcloser : t.kind = l.closer
    · rw [if_pos hcloser, if_pos hcloser, Except.toOption, ← onTop_close hs]
      rfl
    · rw [if_neg hcloser, if_neg hcloser, expression_onTop]

/-- On top of another assembly a token is read as it is alone, and refused if it is alone. A closing
brace where nothing is open is left out: alone it is dropped, on top it may close what is below. -/
theorem step_onTop (hb : base.AtText)
    (ht : s.stack = [] → t.kind = .string ∨ t.kind = .expressionStart) :
    ((base.onTop s).step t).toOption = (s.step t).toOption.map base.onTop := by
  cases hs : s.stack with
  | nil =>
    have hs' : (base.onTop s).AtText := by
      obtain ⟨parts, stack⟩ := s
      cases hs
      exact hb.foldl_deliver parts
    have hat : s.AtText := .inl hs
    rcases ht hs with hk | hk
    · rw [hs'.step_string hk, hat.step_string hk, ← onTop_deliver]
      rfl
    · rw [hs'.step_start hk, hat.step_start hk, ← onTop_push]
      rfl
  | cons c below =>
    have hs' : (base.onTop s).stack = c :: (below ++ (s.parts.foldl deliver base).stack) := by
      rw [onTop, hs]
      rfl
    have hexpression := expression_onTop base s t
    have hclose := onTop_close hs base
    have hupdate := onTop_update hs base
    cases c with
    | interpolation p e =>
      cases e with
      | none => simpa only [step, hs, hs'] using hexpression
      | some e =>
        simp only [step, hs, hs']
        split
        · rw [← hclose]
          rfl
        · split <;> split <;> rfl
        · rfl
    | call p callee items last => exact step_items_onTop (.call p callee) hs base t
    | array p items last => exact step_items_onTop (.array p) hs base t
    | object p properties pending =>
      cases pending with
      | some key => simpa only [step, hs, hs'] using hexpression
      | none =>
        simp only [step, hs, hs']
        split
        · rfl
        · rw [← hclose]
          rfl
        · rfl
        · rw [← hupdate]
          rfl
        · rfl
    | template p parts =>
      simp only [step, hs, hs']
      refine textOr_onTop ?_
      split
      · rw [← hclose]
        rfl
      · rfl

theorem toOption_eq_some_iff {x : Except ParseError Assembly} :
    x.toOption = some s ↔ x = .ok s := by
  cases x <;> simp [Except.toOption]

theorem toOption_run_cons (s : Assembly) (t : Token) (ts : List Token) :
    (s.run (t :: ts)).toOption = (s.step t).toOption.bind fun s' => (s'.run ts).toOption := by
  rw [run]
  cases s.step t <;> rfl

section Runs

open Scan

variable {σ τ : State} {ts : List Token}

theorem run_onTop (hb : base.AtText) (he : Emits σ ts τ) (ho : σ.opened = s.openers) :
    ((base.onTop s).run ts).toOption = (s.run ts).toOption.map base.onTop := by
  induction he generalizing s with
  | stay => rfl
  | @next σ τ υ t ts hn _ ih =>
    have ht : s.stack = [] → t.kind = .string ∨ t.kind = .expressionStart := by
      intro hs
      have hf := next_fits hn
      rw [ho, openers, hs] at hf
      exact hf
    rw [toOption_run_cons, toOption_run_cons, step_onTop hb ht]
    cases hst : s.step t with
    | error e => rfl
    | ok s' =>
      refine ih ?_
      rw [(step_move hst).openers_eq, ← ho]
      exact (Emits.next hn (.stay τ)).opened_eq

theorem run_onTop_ok (hb : base.AtText) (he : Emits σ ts τ) (ho : σ.opened = s.openers)
    (h : s.run ts = .ok s') : (base.onTop s).run ts = .ok (base.onTop s') := by
  rw [← toOption_eq_some_iff, run_onTop hb he ho, h]
  rfl

theorem exists_run_of_onTop (hb : base.AtText) (he : Emits σ ts τ) (ho : σ.opened = s.openers)
    (h : (base.onTop s).run ts = .ok s') : ∃ s₁, s.run ts = .ok s₁ ∧ s' = base.onTop s₁ := by
  have htop := run_onTop hb he ho
  rw [toOption_eq_some_iff.2 h] at htop
  obtain ⟨s₁, hs₁, rfl⟩ := Option.map_eq_some_iff.1 htop.symm
  exact ⟨s₁, toOption_eq_some_iff.1 hs₁, rfl⟩

end Runs

end Assembly

end MessageCatalog
