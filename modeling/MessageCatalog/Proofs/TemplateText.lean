import MessageCatalog.Proofs.Nesting
import MessageCatalog.Proofs.RenderedText

/-!
# Phrases as templates

Text and interpolations are read alike in a template and outside of any, but for the backtick, which
is plain text outside and closes a template. So a text that is a phrase, with no backtick in its
plain text, can be put between backticks in an interpolation: what is read there is the template of
the same parts, and it is rendered as they are.
-/
namespace MessageCatalog
open Scan

section Reading

variable {text : String} {p : Phrase} {opener : Opener} {below : List Opener} {rest : List Char}
  {s : Assembly}

theorem reads_backticks (hp : Phrase.parse text = .ok p) (hne : text ≠ "")
    (hplain : State.NoBacktick (.start text)) (ho : opener ≠ .template) (hs : s.Awaits) :
    ReadsTo (opener :: below) ('`' :: (text.toList ++ '`' :: rest)) s
      (opener :: below) rest (s.deliver (.template p)) := by
  obtain ⟨ts, stop, he, hr, -⟩ := Phrase.emits_of_parse hp (by simpa using hne)
  refine .expression (l := ⟨.templateStart, ['`'], _⟩) ho rfl (fun position => hs _ rfl)
    fun position => ?_
  have htemplate : (s.push (.template position [])).AtText := .inr ⟨position, [], _, rfl⟩
  have hparts : ReadsTo (.template :: opener :: below) (text.toList ++ '`' :: rest)
      (s.push (.template position [])) (.template :: opener :: below) ('`' :: rest)
      (s.push (.template position p)) := by
    rw [← List.nil_append p, ← Assembly.foldl_deliver_template]
    exact reads_nested he hr (readsText_template _) (fun _ => hplain) (fun _ _ => .inr rfl) htemplate
  exact hparts.trans (reads_backtick position p)

theorem reads_asTemplate {inTemplate : Bool} (hp : Phrase.parse text = .ok p) (hne : text ≠ "")
    (hplain : State.NoBacktick (.start text)) (hbelow : ReadsText below inTemplate)
    (hs : s.AtText) :
    ReadsTo below ('$' :: '\x7b' :: '`' :: (text.toList ++ '`' :: '\x7d' :: rest)) s
      below rest (s.deliver (.template p)) := by
  have hstart (cs : List Char) : lexeme? below (skip below ('$' :: '\x7b' :: cs)) =
      some ⟨.expressionStart, ['$', '\x7b'], cs⟩ := by
    rw [hbelow.skip_eq, hbelow.lexeme_eq]
    rfl
  refine .lexeme (hstart _) (fun position => hs.step_start rfl) fun position => ?_
  have htemplate : ReadsTo (.interpolation :: below) ('`' :: (text.toList ++ '`' :: '\x7d' :: rest))
      (s.push (.interpolation position none)) (.interpolation :: below) ('\x7d' :: rest)
      (s.push (.interpolation position (some (.template p)))) :=
    reads_backticks hp hne hplain (by simp) (s.awaits_interpolation position)
  exact htemplate.trans (reads_expressionEnd position (.template p))

end Reading

namespace Phrase

variable {σ : Type} {call : Callable → List Value → Eval σ Value} {locals : Locals}

def MeetsOverlong (call : Callable → List Value → Eval σ Value) (locals : Locals) (p : Phrase)
    (s s' : σ) : Prop :=
  ∃ before e after vs s₁ v, p = before ++ e :: after ∧
    Expr.evaluateAll call locals before s = .ok vs s₁ ∧ Value.allHaveText vs = true ∧
    Expr.evaluate call locals e s₁ = .ok v s' ∧ v.hasText = false

theorem MeetsOverlong.cons {e : Expr} {es : Phrase} {v : Value} {s s₁ s' : σ}
    (he : e.evaluate call locals s = .ok v s₁) (hv : v.hasText = true)
    (h : MeetsOverlong call locals es s₁ s') : MeetsOverlong call locals (e :: es) s s' := by
  obtain ⟨before, d, after, vs, s₂, w, rfl, hbefore, hvs, hd, hw⟩ := h
  refine ⟨e :: before, d, after, v :: vs, s₂, w, rfl, ?_, ?_, hd, hw⟩
  · rw [Expr.evaluateAll, Eval.bind_ok he, Eval.bind_ok hbefore]
    rfl
  · rw [Value.allHaveText, hv, hvs]
    rfl

theorem evaluateText_of_meetsOverlong {p : Phrase} {s s' : σ}
    (h : MeetsOverlong call locals p s s') :
    Expr.evaluateText call locals p s = .error .overlongInteger s' := by
  obtain ⟨before, e, after, vs, s₁, v, rfl, hbefore, hvs, he, hv⟩ := h
  induction before generalizing s vs with
  | nil =>
    cases hbefore
    rw [List.nil_append, Expr.evaluateText, Eval.bind_ok he, Eval.bind_error (Value.write_error hv s')]
  | cons d before ih =>
    rw [Expr.evaluateAll] at hbefore
    obtain ⟨w, s₂, hd, hbefore⟩ := Eval.exists_of_bind_ok hbefore
    obtain ⟨ws, s₃, hws, hbefore⟩ := Eval.exists_of_bind_ok hbefore
    cases hbefore
    obtain ⟨hw, hall⟩ := Bool.and_eq_true_iff.1 hvs
    rw [List.cons_append, Expr.evaluateText, Eval.bind_ok hd, Eval.bind_ok (Value.write_ok hw s₂),
      Eval.bind_error (ih ws hws hall)]

/-- A template takes each text at once and a phrase takes all of them at its end. They part ways
only at a value without text, and then the phrase has no text either. -/
inductive TextOutcome (call : Callable → List Value → Eval σ Value) (locals : Locals) (p : Phrase)
    (s : σ) : Prop where
  | text (t : String) (s' : σ) : Expr.evaluateText call locals p s = .ok t s' →
      p.joined call locals s = .ok (some t) s' → TextOutcome call locals p s
  | fails (e : RenderError) (s' : σ) : Expr.evaluateText call locals p s = .error e s' →
      p.joined call locals s = .error e s' → TextOutcome call locals p s
  | overlong (s' : σ) : MeetsOverlong call locals p s s' →
      (∀ t s'', p.joined call locals s ≠ .ok (some t) s'') → TextOutcome call locals p s

theorem textOutcome (p : Phrase) (s : σ) : TextOutcome call locals p s := by
  induction p generalizing s with
  | nil => exact .text "" s rfl rfl
  | cons e p ih =>
    cases he : e.evaluate call locals s with
    | error error s₁ =>
      refine .fails error s₁ ?_ ?_
      · rw [Expr.evaluateText, Eval.bind_error he]
      · rw [joined_cons, Eval.bind_error he]
    | ok v s₁ =>
      have htext : Expr.evaluateText call locals (e :: p) s = _ := Eval.bind_ok he
      have hjoined : joined call locals (e :: p) s =
          (joined call locals p >>= fun t => pure (bothTexts v.text? t)) s₁ := by
        rw [joined_cons, Eval.bind_ok he]
      cases hv : v.hasText with
      | true =>
        have hsome : v.text? = some v.text := if_pos hv
        rw [Eval.bind_ok (Value.write_ok hv s₁)] at htext
        rw [hsome] at hjoined
        cases ih s₁ with
        | text t s' ht hj =>
          rw [Eval.bind_ok ht] at htext
          rw [Eval.bind_ok hj] at hjoined
          exact .text _ s' htext hjoined
        | fails error s' ht hj =>
          rw [Eval.bind_error ht] at htext
          rw [Eval.bind_error hj] at hjoined
          exact .fails error s' htext hjoined
        | overlong s' hmeets hj =>
          refine .overlong s' (hmeets.cons he hv) fun t s'' h => ?_
          obtain ⟨o, s₂, ho, h⟩ := Eval.exists_of_bind_ok (hjoined ▸ h)
          cases o with
          | some u => exact hj u s₂ ho
          | none => cases h
      | false =>
        have hnone : v.text? = none := if_neg (by simp [hv])
        refine .overlong s₁ ⟨[], e, p, [], s, v, rfl, rfl, rfl, he, hv⟩ fun t s'' h => ?_
        rw [hjoined, hnone] at h
        obtain ⟨o, s₂, -, h⟩ := Eval.exists_of_bind_ok h
        cases h

theorem render_of_joined_some {p : Phrase} {s s' : σ} {t : String}
    (h : p.joined call locals s = .ok (some t) s') : p.render call locals s = .ok t s' := by
  rw [render_eq_joined, Eval.bind_ok h]
  rfl

theorem exists_joined_of_render {p : Phrase} {s s' : σ} {t : String}
    (h : p.render call locals s = .ok t s') : p.joined call locals s = .ok (some t) s' := by
  rw [render_eq_joined] at h
  obtain ⟨o, s₁, ho, h⟩ := Eval.exists_of_bind_ok h
  cases o with
  | some u =>
    cases h
    exact ho
  | none => contradiction

theorem render_template (p : Phrase) :
    render call locals [.template p] = Expr.evaluateText call locals p := by
  simp [render, evaluate, Expr.evaluateAll, Expr.evaluate, Value.writeAll, Value.joinText?_str,
    written, Eval.lift]

theorem render_template_eq {p : Phrase} {s : σ} (h : ∀ s', ¬ MeetsOverlong call locals p s s') :
    render call locals [.template p] s = p.render call locals s := by
  have houtcome : TextOutcome call locals p s := textOutcome p s
  rw [render_template]
  cases houtcome with
  | text t s' ht hj => rw [ht, render_of_joined_some hj]
  | fails e s' ht hj => rw [ht, render_eq_joined, Eval.bind_error hj]
  | overlong s' hmeets => exact absurd hmeets (h s')

theorem render_ne_ok_of_meetsOverlong {p : Phrase} {s s' : σ}
    (h : MeetsOverlong call locals p s s') (t : String) (s'' : σ) :
    p.render call locals s ≠ .ok t s'' := by
  intro hr
  have hj := exists_joined_of_render hr
  have htext := evaluateText_of_meetsOverlong h
  have houtcome : TextOutcome call locals p s := textOutcome p s
  cases houtcome with
  | text u s₁ ht => cases htext.symm.trans ht
  | fails e s₁ _ hj' => cases hj.symm.trans hj'
  | overlong s₁ _ hne => exact hne t s'' hj

end Phrase

/-- A phrase without backticks in its plain text is the same between backticks in an interpolation:
it is read as the template of its parts, and the template is rendered as the phrase is, with the
same calls, or fails as it does. They fail apart where a value has no text: the template stops
there, and the phrase, which has no text either, does so after its last part. -/
theorem parse_asTemplate {text : String} {p : Phrase} (hp : Phrase.parse text = .ok p)
    (hne : text ≠ "") (hplain : State.NoBacktick (.start text)) :
    Phrase.parse ("$\x7b`" ++ text ++ "`\x7d") = .ok [.template p] ∧
      (∀ (σ : Type) (call : Callable → List Value → Eval σ Value) (locals : Locals) (s : σ),
        (∀ s', ¬ p.MeetsOverlong call locals s s') →
        Phrase.render call locals [.template p] s = p.render call locals s) ∧
      (∀ (σ : Type) (call : Callable → List Value → Eval σ Value) (locals : Locals) (s s' : σ),
        p.MeetsOverlong call locals s s' →
        Phrase.render call locals [.template p] s = .error .overlongInteger s' ∧
          ∀ t s'', p.render call locals s ≠ .ok t s'') ∧
      ∀ (host : Host) (locals : Locals), (∀ log, ¬ p.MeetsOverlong host.call locals [] log) →
        host.render [.template p] locals = host.render p locals := by
  refine ⟨Phrase.parse_of_readsTo_text ?_ ?_, fun _ _ _ _ h => Phrase.render_template_eq h,
    fun _ _ _ _ _ h => ⟨?_, Phrase.render_ne_ok_of_meetsOverlong h⟩, fun host locals h => ?_⟩
  · simp
  · have htext : ("$\x7b`" ++ text ++ "`\x7d").toList =
        '$' :: '\x7b' :: '`' :: (text.toList ++ '`' :: '\x7d' :: []) := by simp
    rw [htext]
    exact reads_asTemplate hp hne hplain readsText_nil (.inl rfl)
  · rw [Phrase.render_template, Phrase.evaluateText_of_meetsOverlong h]
  · rw [Host.render_eq, Host.render_eq, Host.outcome, Phrase.render_template_eq h, Host.outcome]

theorem parse_asTemplate_nested :
    let text := "a $\x7b[ `b$\x7b\x7b\x7d\x7d`, '`' ] \x7d$"
    let p : Phrase := [.text "a ", .array [.template [.text "b", .object []], .text "`"], .text "$"]
    Phrase.parse text = .ok p ∧ State.NoBacktick (.start text) ∧
      Phrase.parse ("$\x7b`" ++ text ++ "`\x7d") = .ok [.template p] ∧
      ∀ host : Host, host.render [.template p] [] = host.render p [] := by
  intro text p
  have he : Emits (.start text)
      [⟨.string, "a ", 0⟩, ⟨.expressionStart, "$\x7b", 2⟩, ⟨.bracketStart, "[", 4⟩,
        ⟨.templateStart, "`", 6⟩, ⟨.string, "b", 7⟩, ⟨.expressionStart, "$\x7b", 8⟩,
        ⟨.braceStart, "\x7b", 10⟩, ⟨.braceEnd, "\x7d", 11⟩, ⟨.expressionEnd, "\x7d", 12⟩,
        ⟨.templateEnd, "`", 13⟩, ⟨.comma, ",", 14⟩, ⟨.string, "`", 16⟩, ⟨.bracketEnd, "]", 20⟩,
        ⟨.expressionEnd, "\x7d", 22⟩, ⟨.string, "$", 23⟩]
      ⟨[], 24, []⟩ := by decide +kernel
  have hp : Phrase.parse text = .ok p := Phrase.parse_of_emits he rfl (by simp)
  have hplain : State.NoBacktick (.start "a $\x7b[ `b$\x7b\x7b\x7d\x7d`, '`' ] \x7d$") := by
    iterate 15
      refine (State.noBacktick_iff rfl).2 ⟨by decide, ?_⟩
    exact State.noBacktick_of_end rfl
  obtain ⟨hparse, -, -, hrender⟩ := parse_asTemplate hp (by decide) hplain
  refine ⟨hp, hplain, hparse, fun host => hrender host [] fun log hmeets => ?_⟩
  have htext : Expr.evaluateText host.call [] p [] = .ok "a b\x7b\x7d,`$" [] := rfl
  cases (Phrase.evaluateText_of_meetsOverlong hmeets).symm.trans htext

/-- The template fails at a value without text, and the phrase at the call after it. -/
theorem parse_asTemplate_overlong :
    let text := "$\x7bn\x7d$\x7bx()\x7d"
    let p : Phrase := [.identifier "n", .call "x" []]
    let locals : Locals := [("n", .int (10 ^ Number.maxDigits))]
    Phrase.parse text = .ok p ∧ State.NoBacktick (.start text) ∧
      Phrase.parse ("$\x7b`" ++ text ++ "`\x7d") = .ok [.template p] ∧
      ∀ host : Host, (host.render [.template p] locals).1 = .error .overlongInteger ∧
        (host.render p locals).1 = .error (.notDefined "x") := by
  intro text p locals
  have he : Emits (.start text)
      [⟨.expressionStart, "$\x7b", 0⟩, ⟨.identifier, "n", 2⟩, ⟨.expressionEnd, "\x7d", 3⟩,
        ⟨.expressionStart, "$\x7b", 4⟩, ⟨.functionCall, "x", 6⟩, ⟨.parenEnd, ")", 8⟩,
        ⟨.expressionEnd, "\x7d", 9⟩] ⟨[], 10, []⟩ := by decide +kernel
  have he' : Emits (.start "$\x7b`$\x7bn\x7d$\x7bx()\x7d`\x7d")
      [⟨.expressionStart, "$\x7b", 0⟩, ⟨.templateStart, "`", 2⟩,
        ⟨.expressionStart, "$\x7b", 3⟩, ⟨.identifier, "n", 5⟩, ⟨.expressionEnd, "\x7d", 6⟩,
        ⟨.expressionStart, "$\x7b", 7⟩, ⟨.functionCall, "x", 9⟩, ⟨.parenEnd, ")", 11⟩,
        ⟨.expressionEnd, "\x7d", 12⟩, ⟨.templateEnd, "`", 13⟩, ⟨.expressionEnd, "\x7d", 14⟩]
      ⟨[], 15, []⟩ := by decide +kernel
  have hplain : State.NoBacktick (.start "$\x7bn\x7d$\x7bx()\x7d") := by
    set_option maxRecDepth 2000 in
    iterate 7
      refine (State.noBacktick_iff rfl).2 ⟨by decide, ?_⟩
    exact State.noBacktick_of_end rfl
  refine ⟨Phrase.parse_of_emits he rfl (by simp), hplain,
    Phrase.parse_of_emits he' rfl (by simp), fun host => ⟨?_, rfl⟩⟩
  have hmeets : Phrase.MeetsOverlong host.call locals p [] [] :=
    ⟨[], .identifier "n", [.call "x" []], [], [], .int (10 ^ Number.maxDigits), rfl, rfl, rfl, rfl,
      Number.hasText_pow⟩
  rw [Host.render_eq, Host.outcome, Phrase.render_template,
    Phrase.evaluateText_of_meetsOverlong hmeets]

end MessageCatalog
