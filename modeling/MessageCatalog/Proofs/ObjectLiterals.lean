import Mathlib.Data.List.Forall2
import MessageCatalog.Proofs.KnownNodes
import MessageCatalog.Proofs.OverlaidEntries
import MessageCatalog.Proofs.ReadExpressions

/-!
# Objects

An object is read from its properties alone: commas may stand anywhere between them. A name that
comes again replaces the expression and keeps the place of the name, so the expression that was
there before is not part of the object and is never evaluated.
-/
namespace MessageCatalog

/-- The tokens of properties, each with its name and those of its expression, with commas anywhere
before, between and after them. -/
inductive ListsProperties : List Token → List (Token × List Token) → Prop where
  | nil : ListsProperties [] []
  | comma {t : Token} {ts : List Token} {written : List (Token × List Token)} :
      t.kind = .comma → ListsProperties ts written → ListsProperties (t :: ts) written
  | property {t : Token} {ts us : List Token} {written : List (Token × List Token)} :
      t.kind = .propertyName → ListsProperties us written →
      ListsProperties (t :: (ts ++ us)) ((t, ts) :: written)

theorem ListsProperties.denotes {ts : List Token} {written : List (Token × List Token)}
    (h : ListsProperties ts written) {es : List Expr}
    (hes : List.Forall₂ (fun e w => e.IsReadFrom w.2) es written) :
    Denotes ts (.properties ((written.map fun w => w.1.value).zip es)) := by
  induction h generalizing es with
  | nil =>
    cases hes
    exact .noProperties
  | comma ht _ ih => exact .separator ht (ih hes)
  | property ht _ ih =>
    cases hes with
    | cons he hes => exact .property ht (isReadFrom_iff_denotes.1 he) (ih hes)

section Evaluation

variable {σ : Type} {call : Callable → List Value → Eval σ Value} {locals : Locals} {s s' : σ}

theorem Expr.evaluateProperties_eq (ps : List (String × Expr)) :
    evaluateProperties call locals ps =
      (fun values => (ps.map fun p => Value.str p.1).zip values) <$>
        evaluateAll call locals (ps.map Prod.snd) := by
  induction ps with
  | nil => rfl
  | cons p ps ih =>
    obtain ⟨name, e⟩ := p
    simp only [evaluateProperties, ih, List.map_cons, evaluateAll, map_bind, bind_map_left,
      map_pure, List.zip_cons_cons]

theorem Expr.length_evaluateAll {es : List Expr} {values : List Value}
    (h : evaluateAll call locals es s = .ok values s') : values.length = es.length := by
  induction es generalizing values s with
  | nil =>
    cases h
    rfl
  | cons e es ih =>
    rw [evaluateAll] at h
    obtain ⟨v, s₁, -, h⟩ := Eval.exists_of_bind_ok h
    obtain ⟨vs, s₂, hes, h⟩ := Eval.exists_of_bind_ok h
    cases h
    exact congrArg (· + 1) (ih hes)

structure EvaluatesAs (call : Callable → List Value → Eval σ Value) (locals : Locals)
    (names : List String) (es : List Expr) (x : Eval σ Value) : Prop where
  ok : ∀ s values s', Expr.evaluateAll call locals es s = .ok values s' →
    ∃ entries, x s = .ok (.dict entries) s' ∧ entries.map Prod.fst = names.map Value.str ∧
      entries.map Prod.snd = values
  error : ∀ s e s', Expr.evaluateAll call locals es s = .error e s' → x s = .error e s'

theorem Expr.evaluate_object (ps : List (String × Expr)) :
    EvaluatesAs call locals (ps.map Prod.fst) (ps.map Prod.snd)
      ((Expr.object ps).evaluate call locals) := by
  have hobject : (Expr.object ps).evaluate call locals =
      evaluateAll call locals (ps.map Prod.snd) >>= fun values =>
        Pure.pure (.dict ((ps.map fun p => Value.str p.1).zip values)) := by
    simp only [evaluate, evaluateProperties_eq, bind_map_left]
  refine ⟨fun s values s' h => ?_, fun s e s' h => ?_⟩
  · refine ⟨(ps.map fun p => Value.str p.1).zip values, ?_, ?_, ?_⟩
    · rw [hobject, Eval.bind_ok h]
      rfl
    · rw [List.map_fst_zip (by simp [length_evaluateAll h]), List.map_map]
      rfl
    · exact List.map_snd_zip (by simp [length_evaluateAll h])
  · rw [hobject, Eval.bind_error h]

end Evaluation

theorem Host.calls_object (ps : List (String × Expr)) (host : Host) (locals : Locals) :
    (host.evaluate [.object ps] locals).2 = (host.evaluate (ps.map Prod.snd) locals).2 := by
  have hobject : EvaluatesAs host.call locals _ _ _ := Expr.evaluate_object ps
  unfold Host.evaluate Phrase.evaluate
  rw [Expr.evaluateAll]
  cases h : Expr.evaluateAll host.call locals (ps.map Prod.snd) [] with
  | ok values calls =>
    obtain ⟨entries, he, -⟩ := hobject.ok _ _ _ h
    rw [Eval.bind_ok he]
    rfl
  | error e calls => rw [Eval.bind_error (hobject.error _ _ _ h)]

/-- The object of some properties. Its names are those of the properties, each once and where it
came first, with the expression that came last under the name. Commas before, between and after the
properties make no difference. Its value is the dictionary of the values of these expressions,
which are evaluated in this order; an expression that was replaced is never evaluated, and its
calls do not happen. -/
theorem object_of_properties {o c : Token} (ho : o.kind = .braceStart) (hc : c.kind = .braceEnd)
    {written : List (Token × List Token)} {es : List Expr}
    (hes : List.Forall₂ (fun e w => e.IsReadFrom w.2) es written) :
    let names := written.map fun w => w.1.value
    ∃ properties : List (String × Expr),
      properties.map Prod.fst = names.eraseDups ∧ (properties.map Prod.fst).Nodup ∧
      (∀ name, properties.lookup name = (names.zip es).reverse.lookup name) ∧
      (∀ body, ListsProperties body written → ∀ s : Assembly, s.Awaits →
        s.run (o :: (body ++ [c])) = .ok (s.deliver (.object properties))) ∧
      (∀ {σ : Type} (call : Callable → List Value → Eval σ Value) (locals : Locals),
        EvaluatesAs call locals names.eraseDups (properties.map Prod.snd)
          ((Expr.object properties).evaluate call locals)) ∧
      ∀ (host : Host) (locals : Locals), (host.evaluate [.object properties] locals).2 =
        (host.evaluate (properties.map Prod.snd) locals).2 := by
  intro names
  have hlength : names.length ≤ es.length := by simp [names, hes.length_eq]
  have hkeys : (Entries.ofPairs (names.zip es)).map Prod.fst = names.eraseDups := by
    rw [Entries.keys_ofPairs, List.map_fst_zip hlength]
  refine ⟨Entries.ofPairs (names.zip es), hkeys, Entries.nodup_overlay (by simp) _, fun name => ?_,
    fun body hbody s hs => ?_, fun call locals => ?_, Host.calls_object _⟩
  · rw [Entries.ofPairs, Entries.lookup_overlay, List.lookup_nil, Option.or_none]
  · exact run_of_denotes (.object ho hc (hbody.denotes hes)) hs
  · rw [← hkeys]
    exact Expr.evaluate_object _

theorem object_of_properties_replaced :
    let properties : List (String × Expr) := [("a", .literal (.int 2)), ("b", .literal (.int 1))]
    let body : List Token := [⟨.comma, ",", 1⟩, ⟨.propertyName, "a", 2⟩, ⟨.functionCall, "f", 4⟩,
      ⟨.parenEnd, ")", 6⟩, ⟨.comma, ",", 7⟩, ⟨.propertyName, "b", 8⟩, ⟨.number, "1", 10⟩,
      ⟨.comma, ",", 11⟩, ⟨.comma, ",", 12⟩, ⟨.propertyName, "a", 13⟩, ⟨.number, "2", 15⟩]
    (Expr.object properties).IsReadFrom
      (⟨.braceStart, "\x7b", 0⟩ :: (body ++ [⟨.braceEnd, "\x7d", 16⟩])) ∧
    ∀ host : Host,
      (host.evaluate [.object properties] [("f", .function (.host ⟨"fail"⟩))]).2 = [] := by
  intro properties body
  let written : List (Token × List Token) :=
    [(⟨.propertyName, "a", 2⟩, [⟨.functionCall, "f", 4⟩, ⟨.parenEnd, ")", 6⟩]),
      (⟨.propertyName, "b", 8⟩, [⟨.number, "1", 10⟩]),
      (⟨.propertyName, "a", 13⟩, [⟨.number, "2", 15⟩])]
  have hes : List.Forall₂ (fun e w => Expr.IsReadFrom e w.2)
      [.call "f" [], .literal (.int 1), .literal (.int 2)] written :=
    .cons rfl (.cons rfl (.cons rfl .nil))
  have hbody : ListsProperties body written :=
    .comma rfl (@ListsProperties.property _ [_, _] _ _ rfl (.comma rfl
      (@ListsProperties.property _ [_] _ _ rfl (.comma rfl (.comma rfl
        (@ListsProperties.property _ [_] _ _ rfl .nil))))))
  obtain ⟨found, -, -, -, hrun, -, hcalls⟩ := object_of_properties (o := ⟨.braceStart, "\x7b", 0⟩)
    (c := ⟨.braceEnd, "\x7d", 16⟩) rfl rfl hes
  have hread : (Expr.object properties).IsReadFrom
      (⟨.braceStart, "\x7b", 0⟩ :: (body ++ [⟨.braceEnd, "\x7d", 16⟩])) := rfl
  have hobject : (Expr.object found).IsReadFrom
      (⟨.braceStart, "\x7b", 0⟩ :: (body ++ [⟨.braceEnd, "\x7d", 16⟩])) :=
    hrun body hbody _ (Assembly.awaits_interpolation _ _)
  have hfound : found = properties := Expr.object.inj (hobject.unique hread)
  subst hfound
  exact ⟨hread, fun host => hcalls host _⟩

end MessageCatalog
