import MessageCatalog.Proofs.KnownNodes
import MessageCatalog.Proofs.RenderedText

/-!
# The trace of calls

What evaluating a phrase does is known before it is evaluated: at each call node its name is looked
up when the node is entered, and its function runs when the node is left, after all its arguments;
and a template takes the text of each part right after it. These events come depth first and from
left to right, and the evaluation goes through them one by one until one of them fails. The
functions of a host give the same results for the same arguments, so what an expression means does
not depend on when it is evaluated.
-/
namespace MessageCatalog

inductive CallEvent where
  | lookup (name : String)
  | run (name : String) (arguments : List Expr)
  | write (part : Expr)

namespace Expr

variable {β : Type}

mutual

/-- What is noted on entering and on leaving the call nodes of an expression and after the parts of
its templates, in a walk that goes depth first and from left to right. -/
def walk (enter leave : String → List Expr → List β) (after : Expr → List β) : Expr → List β
  | .call name arguments =>
    enter name arguments ++ (walkAll enter leave after arguments ++ leave name arguments)
  | .array elements => walkAll enter leave after elements
  | .object properties => walkProperties enter leave after properties
  | .template parts => walkText enter leave after parts
  | .literal _ | .identifier _ | .unknown _ => []

def walkAll (enter leave : String → List Expr → List β) (after : Expr → List β) :
    List Expr → List β
  | [] => []
  | e :: rest => walk enter leave after e ++ walkAll enter leave after rest

def walkProperties (enter leave : String → List Expr → List β) (after : Expr → List β) :
    List (String × Expr) → List β
  | [] => []
  | (_, e) :: rest => walk enter leave after e ++ walkProperties enter leave after rest

def walkText (enter leave : String → List Expr → List β) (after : Expr → List β) :
    List Expr → List β
  | [] => []
  | e :: rest => walk enter leave after e ++ (after e ++ walkText enter leave after rest)

end

end Expr

namespace CallEvent

def isRun : CallEvent → Bool
  | .run .. => true
  | .lookup _ | .write _ => false

def enter (name : String) (_ : List Expr) : List CallEvent := [.lookup name]

def leave (name : String) (arguments : List Expr) : List CallEvent := [.run name arguments]

def after (part : Expr) : List CallEvent := [.write part]

end CallEvent

namespace Phrase

/-- The events of a phrase. A call is entered before its arguments and left after them, and the text
of a part of a template is taken before the next part. -/
def events (p : Phrase) : List CallEvent :=
  Expr.walkAll CallEvent.enter CallEvent.leave CallEvent.after p

def runs (p : Phrase) : List CallEvent :=
  Expr.walkAll (fun _ _ => []) CallEvent.leave (fun _ => []) p

end Phrase

def Locals.OnlyHostFunctions (locals : Locals) : Prop :=
  ∀ name f, locals.value name = .function f → ∃ g, f = .host g

theorem Locals.onlyHostFunctions_of_forall {locals : Locals}
    (h : ∀ entry ∈ locals, ∀ f, entry.2 = .function f → ∃ g, f = .host g) :
    locals.OnlyHostFunctions := by
  intro name f hf
  unfold Locals.value at hf
  cases hv : locals.lookup name with
  | none =>
    rw [hv] at hf
    contradiction
  | some v =>
    rw [hv] at hf
    exact h _ (Entries.mem_of_lookup hv) f hf

def Host.apply (host : Host) (locals : Locals) (name : String) (arguments : List Value) :
    Except RenderError Value :=
  match locals.value name with
  | .function (.host g) => (host.run g arguments).mapError .host
  | _ => .ok .undefined

namespace Expr

mutual

def meaning (host : Host) (locals : Locals) : Expr → Value
  | .literal v => v
  | .identifier name => locals.value name
  | .call name arguments =>
    match host.apply locals name (meaningAll host locals arguments) with
    | .ok v => v
    | .error _ => .undefined
  | .array elements => .list (meaningAll host locals elements)
  | .object properties => .dict (meaningProperties host locals properties)
  | .template parts => .str (Value.joinText (meaningAll host locals parts))
  | .unknown _ => .undefined

def meaningAll (host : Host) (locals : Locals) : List Expr → List Value
  | [] => []
  | e :: rest => meaning host locals e :: meaningAll host locals rest

def meaningProperties (host : Host) (locals : Locals) :
    List (String × Expr) → List (Value × Value)
  | [] => []
  | (name, e) :: rest => (.str name, meaning host locals e) :: meaningProperties host locals rest

end

end Expr

namespace CallEvent

def failure? (host : Host) (locals : Locals) : CallEvent → Option RenderError
  | .lookup name => match locals.value name with
    | .undefined => some (.notDefined name)
    | .function _ => none
    | _ => some (.notAFunction name)
  | .run name arguments => match host.apply locals name (Expr.meaningAll host locals arguments) with
    | .error e => some e
    | .ok _ => none
  | .write part => if (part.meaning host locals).hasText then none else some .overlongInteger

def hostCall? (host : Host) (locals : Locals) : CallEvent → Option HostCall
  | .lookup _ | .write _ => none
  | .run name arguments => match locals.value name with
    | .function (.host g) => some ⟨g, Expr.meaningAll host locals arguments⟩
    | _ => none

variable {host : Host} {locals : Locals}

theorem failure?_lookup (name : String) : (lookup name).failure? host locals =
    match Expr.callee locals name with
    | .error e => some e
    | .ok _ => none := by
  cases hv : locals.value name <;> simp [failure?, Expr.callee, hv]

end CallEvent

open CallEvent

def Records (host : Host) (locals : Locals) (events : List CallEvent) (log : List HostCall) : Prop :=
  log.map some = (events.filter isRun).map (hostCall? host locals)

namespace Records

variable {host : Host} {locals : Locals} {ds es : List CallEvent} {log log' : List HostCall}

theorem append (h : Records host locals ds log) (h' : Records host locals es log') :
    Records host locals (ds ++ es) (log ++ log') := by
  unfold Records at *
  rw [List.map_append, List.filter_append, List.map_append, h, h']

theorem run {name : String} {g : HostFunction} (h : locals.value name = .function (.host g))
    (arguments : List Expr) :
    Records host locals [.run name arguments] [⟨g, Expr.meaningAll host locals arguments⟩] := by
  change [some _] = [hostCall? host locals (.run name arguments)]
  rw [hostCall?, h]

end Records

/-- A computation that goes through events: it stops at the first one that fails, with that one
recorded if it is a run, and gives a value if none does. -/
structure GoesThrough {α : Type} (host : Host) (locals : Locals) (events : List CallEvent) (value : α)
    (x : Eval (List HostCall) α) : Prop where
  stops : ∀ before d after e log, events = before ++ d :: after →
    (∀ c ∈ before, c.failure? host locals = none) → d.failure? host locals = some e →
    ∃ log', x log = .error e (log ++ log') ∧ Records host locals (before ++ [d]) log'
  completes : ∀ log, (∀ d ∈ events, d.failure? host locals = none) →
    ∃ log', x log = .ok value (log ++ log') ∧ Records host locals events log'

namespace GoesThrough

variable {α β : Type} {host : Host} {locals : Locals} {ds es : List CallEvent} {name : String}

theorem pure (a : α) : GoesThrough host locals [] a (Pure.pure a) where
  stops before d after e log h _ _ := by simp at h
  completes log _ := ⟨[], congrArg (EStateM.Result.ok a) (List.append_nil log).symm, rfl⟩

theorem bind {a : α} {b : β} {x : Eval (List HostCall) α} {f : α → Eval (List HostCall) β}
    (hx : GoesThrough host locals ds a x) (hf : GoesThrough host locals es b (f a)) :
    GoesThrough host locals (ds ++ es) b (x >>= f) where
  stops before d after e log h hbefore hd := by
    rcases List.append_eq_append_iff.1 h with ⟨mid, rfl, hes⟩ | ⟨mid, hds, hafter⟩
    · obtain ⟨hds, hmid⟩ := List.forall_mem_append.1 hbefore
      obtain ⟨first, hfirst, hrecords⟩ := hx.completes log hds
      obtain ⟨second, hsecond, hrecords'⟩ := hf.stops mid d after e (log ++ first) hes hmid hd
      refine ⟨first ++ second, ?_, by simpa using hrecords.append hrecords'⟩
      rw [Eval.bind_ok hfirst, hsecond, List.append_assoc]
    · cases mid with
      | nil =>
        -- The second computation fails at its first event.
        obtain rfl : ds = before := by simpa using hds
        obtain ⟨first, hfirst, hrecords⟩ := hx.completes log hbefore
        obtain ⟨second, hsecond, hrecords'⟩ :=
          hf.stops [] d after e (log ++ first) hafter.symm (by simp) hd
        refine ⟨first ++ second, ?_, by simpa using hrecords.append hrecords'⟩
        rw [Eval.bind_ok hfirst, hsecond, List.append_assoc]
      | cons c mid =>
        obtain ⟨rfl, -⟩ := List.cons.inj hafter
        obtain ⟨first, hfirst, hrecords⟩ := hx.stops before d mid e log hds hbefore hd
        exact ⟨first, Eval.bind_error hfirst, hrecords⟩
  completes log h := by
    obtain ⟨hds, hes⟩ := List.forall_mem_append.1 h
    obtain ⟨first, hfirst, hrecords⟩ := hx.completes log hds
    obtain ⟨second, hsecond, hrecords'⟩ := hf.completes (log ++ first) hes
    refine ⟨first ++ second, ?_, hrecords.append hrecords'⟩
    rw [Eval.bind_ok hfirst, hsecond, List.append_assoc]

theorem lookup {f : Callable} (h : Expr.callee locals name = .ok f) :
    GoesThrough host locals [.lookup name] f (Pure.pure f) where
  stops before d after e log hds _ hd := by
    have hsucceeds : (CallEvent.lookup name).failure? host locals = none := by rw [failure?_lookup, h]
    have hmem : d ∈ [CallEvent.lookup name] := by simp [hds]
    obtain rfl := List.mem_singleton.1 hmem
    rw [hsucceeds] at hd
    contradiction
  completes log _ := ⟨[], congrArg (EStateM.Result.ok f) (List.append_nil log).symm, rfl⟩

theorem throw {e : RenderError} (h : Expr.callee locals name = .error e) (ds : List CallEvent)
    (a : α) : GoesThrough host locals (.lookup name :: ds) a (MonadExcept.throw e) := by
  have hfails : (CallEvent.lookup name).failure? host locals = some e := by rw [failure?_lookup, h]
  refine ⟨fun before d after e' log hds hbefore hd => ?_, fun log hall => ?_⟩
  · cases before with
    | nil =>
      obtain ⟨rfl, -⟩ := List.cons.inj hds
      obtain rfl : e = e' := by simpa [hfails] using hd
      exact ⟨[], congrArg (EStateM.Result.error e) (List.append_nil log).symm, rfl⟩
    | cons c before =>
      obtain ⟨rfl, -⟩ := List.cons.inj hds
      simpa [hfails] using hbefore _ List.mem_cons_self
  · simpa [hfails] using hall _ List.mem_cons_self

theorem run {g : HostFunction} (h : locals.value name = .function (.host g))
    (arguments : List Expr) :
    GoesThrough host locals [.run name arguments] ((Expr.call name arguments).meaning host locals)
      (host.call (.host g) (Expr.meaningAll host locals arguments)) := by
  have happly : host.apply locals name (Expr.meaningAll host locals arguments) =
      (host.run g (Expr.meaningAll host locals arguments)).mapError .host := by
    rw [Host.apply, h]
  refine ⟨fun before d after e log hds _ hd => ?_, fun log hall => ?_⟩
  · cases before with
    | nil =>
      obtain ⟨rfl, -⟩ := List.cons.inj hds
      refine ⟨_, ?_, .run h arguments⟩
      rw [Host.call_host]
      cases hg : host.run g (Expr.meaningAll host locals arguments) <;>
        simp_all [failure?, Except.mapError]
    | cons c before => simp at hds
  · have hsucceeds := hall _ List.mem_cons_self
    refine ⟨_, ?_, .run h arguments⟩
    rw [Host.call_host]
    cases hg : host.run g (Expr.meaningAll host locals arguments) <;>
      simp_all [failure?, Expr.meaning, Except.mapError]

theorem write (e : Expr) :
    GoesThrough host locals (after e) (e.meaning host locals).text
      ((e.meaning host locals).write) := by
  refine ⟨fun before d after e' log hds _ hd => ?_, fun log hall => ?_⟩
  · cases before with
    | nil =>
      obtain ⟨rfl, -⟩ := List.cons.inj hds
      cases htext : (e.meaning host locals).hasText with
      | true => simp [failure?, htext] at hd
      | false =>
        obtain rfl : RenderError.overlongInteger = e' := by simpa [failure?, htext] using hd
        refine ⟨[], ?_, rfl⟩
        rw [Value.write_error htext, List.append_nil]
    | cons c before => simp [CallEvent.after] at hds
  · have htext : (e.meaning host locals).hasText = true := by
      simpa [failure?] using hall _ List.mem_cons_self
    refine ⟨[], ?_, rfl⟩
    rw [Value.write_ok htext, List.append_nil]

end GoesThrough

section Evaluation

variable {host : Host} {locals : Locals}

mutual

theorem Expr.evaluate_goesThrough (hl : locals.OnlyHostFunctions) (e : Expr) (h : e.IsKnown) :
    GoesThrough host locals (e.walk enter leave after) (e.meaning host locals)
      (e.evaluate host.call locals) := by
  cases h with
  | literal v => exact .pure v
  | identifier name => exact .pure _
  | @call name arguments harguments =>
    rw [evaluate]
    split
    · next f hf =>
      -- The events of the node are its lookup, those of the arguments, and its run.
      have hvalue := value_of_callee hf
      obtain ⟨g, rfl⟩ := hl name f hvalue
      exact .bind (.lookup hf) (.bind (evaluateAll_goesThrough hl arguments harguments)
        (.run hvalue arguments))
    · next he => exact .throw he _ _
  | @array elements helements =>
    rw [walk, ← List.append_nil (walkAll enter leave after elements)]
    exact .bind (evaluateAll_goesThrough hl elements helements) (.pure _)
  | @object properties hproperties =>
    rw [walk, ← List.append_nil (walkProperties enter leave after properties)]
    exact .bind (evaluateProperties_goesThrough hl properties hproperties) (.pure _)
  | @template parts hparts =>
    rw [walk, ← List.append_nil (walkText enter leave after parts)]
    exact .bind (evaluateText_goesThrough hl parts hparts) (.pure _)

theorem Expr.evaluateAll_goesThrough (hl : locals.OnlyHostFunctions) (es : List Expr)
    (h : ∀ e ∈ es, e.IsKnown) :
    GoesThrough host locals (walkAll enter leave after es) (meaningAll host locals es)
      (evaluateAll host.call locals es) := by
  cases es with
  | nil => exact .pure _
  | cons e es =>
    obtain ⟨he, hes⟩ := List.forall_mem_cons.1 h
    rw [walkAll, ← List.append_nil (walkAll enter leave after es)]
    exact .bind (e.evaluate_goesThrough hl he)
      (.bind (evaluateAll_goesThrough hl es hes) (.pure _))

theorem Expr.evaluateProperties_goesThrough (hl : locals.OnlyHostFunctions)
    (ps : List (String × Expr)) (h : ∀ p ∈ ps, p.2.IsKnown) :
    GoesThrough host locals (walkProperties enter leave after ps) (meaningProperties host locals ps)
      (evaluateProperties host.call locals ps) := by
  cases ps with
  | nil => exact .pure _
  | cons p ps =>
    obtain ⟨name, e⟩ := p
    obtain ⟨he, hps⟩ := List.forall_mem_cons.1 h
    rw [walkProperties, ← List.append_nil (walkProperties enter leave after ps)]
    exact .bind (e.evaluate_goesThrough hl he)
      (.bind (evaluateProperties_goesThrough hl ps hps) (.pure _))

theorem Expr.evaluateText_goesThrough (hl : locals.OnlyHostFunctions) (es : List Expr)
    (h : ∀ e ∈ es, e.IsKnown) :
    GoesThrough host locals (walkText enter leave after es)
      (Value.joinText (meaningAll host locals es)) (evaluateText host.call locals es) := by
  cases es with
  | nil => exact .pure _
  | cons e es =>
    obtain ⟨he, hes⟩ := List.forall_mem_cons.1 h
    rw [walkText, ← List.append_nil (walkText enter leave after es), meaningAll,
      Value.joinText_cons]
    exact .bind (e.evaluate_goesThrough hl he)
      (.bind (.write e) (.bind (evaluateText_goesThrough hl es hes) (.pure _)))

end

end Evaluation

mutual

theorem Expr.filter_isRun_walk (e : Expr) :
    (e.walk enter leave after).filter isRun = e.walk (fun _ _ => []) leave fun _ => [] := by
  cases e with
  | literal | identifier | unknown => rfl
  | array elements => exact filter_isRun_walkAll elements
  | object properties => exact filter_isRun_walkProperties properties
  | template parts => exact filter_isRun_walkText parts
  | call name arguments =>
    simp only [walk, List.filter_append, filter_isRun_walkAll arguments]
    rfl

theorem Expr.filter_isRun_walkAll (es : List Expr) :
    (walkAll enter leave after es).filter isRun =
      walkAll (fun _ _ => []) leave (fun _ => []) es := by
  cases es with
  | nil => rfl
  | cons e es =>
    simp only [walkAll, List.filter_append, filter_isRun_walk e, filter_isRun_walkAll es]

theorem Expr.filter_isRun_walkProperties (ps : List (String × Expr)) :
    (walkProperties enter leave after ps).filter isRun =
      walkProperties (fun _ _ => []) leave (fun _ => []) ps := by
  cases ps with
  | nil => rfl
  | cons p ps =>
    obtain ⟨name, e⟩ := p
    simp only [walkProperties, List.filter_append, filter_isRun_walk e,
      filter_isRun_walkProperties ps]

theorem Expr.filter_isRun_walkText (es : List Expr) :
    (walkText enter leave after es).filter isRun =
      walkText (fun _ _ => []) leave (fun _ => []) es := by
  cases es with
  | nil => rfl
  | cons e es =>
    simp only [walkText, List.filter_append, filter_isRun_walk e, filter_isRun_walkText es]
    rfl

end

theorem Phrase.filter_isRun_events (p : Phrase) : p.events.filter isRun = p.runs :=
  Expr.filter_isRun_walkAll p

/-- Evaluating a phrase goes through the lookups and runs of its call nodes and the texts its
templates take, depth first and from left to right. At the first of these events that fails it
stops with that failure, and the host has recorded the runs up to there with the values of their
arguments, one that fails with them. If no event fails, each node has its value and each call node
has run once, in post-order. -/
theorem Host.evaluate_trace {p : Phrase} {locals : Locals} (hp : ∀ e ∈ p, e.IsKnown)
    (hl : locals.OnlyHostFunctions) (host : Host) :
    (∀ before d after e, p.events = before ++ d :: after →
      (∀ c ∈ before, c.failure? host locals = none) → d.failure? host locals = some e →
      ∃ log, host.evaluate p locals = (.error e, log) ∧
        Records host locals (before ++ [d]) log) ∧
    ((∀ d ∈ p.events, d.failure? host locals = none) →
      ∃ log, host.evaluate p locals = (.ok (Expr.meaningAll host locals p), log) ∧
        log.map some = p.runs.map (hostCall? host locals)) := by
  have htrace : GoesThrough host locals p.events (Expr.meaningAll host locals p)
      (p.evaluate host.call locals) := Expr.evaluateAll_goesThrough hl p hp
  refine ⟨fun before d after e h hbefore hd => ?_, fun h => ?_⟩
  · obtain ⟨log, hlog, hrecords⟩ := htrace.stops before d after e [] h hbefore hd
    exact ⟨log, by rw [Host.evaluate, hlog, List.nil_append], hrecords⟩
  · obtain ⟨log, hlog, hrecords⟩ := htrace.completes [] h
    refine ⟨log, by rw [Host.evaluate, hlog, List.nil_append], ?_⟩
    rw [hrecords, p.filter_isRun_events]

theorem Host.evaluate_trace_nested :
    let locals : Locals := [("f", .function (.host ⟨"args"⟩)), ("g", .function (.host ⟨"first"⟩)),
      ("h", .function (.host ⟨"fail"⟩)), ("n", .null)]
    let p : Phrase := [.call "f" [.call "g" [.text "a"], .call "h" [.text "b"], .call "n" []]]
    let q : Phrase := [.template [.call "f" [.call "g" [.text "a"]], .identifier "n"]]
    showing.evaluate p locals =
      (.error (.host ⟨"HostError", "boom"⟩), [⟨⟨"first"⟩, [.str "a"]⟩, ⟨⟨"fail"⟩, [.str "b"]⟩]) ∧
    showing.evaluate q locals =
      (.ok [.str "a"], [⟨⟨"first"⟩, [.str "a"]⟩, ⟨⟨"args"⟩, [.str "a"]⟩]) := by
  intro locals p q
  have hl : locals.OnlyHostFunctions := by
    refine Locals.onlyHostFunctions_of_forall fun entry hentry f hf => ?_
    simp only [locals, List.mem_cons, List.not_mem_nil, or_false] at hentry
    rcases hentry with rfl | rfl | rfl | rfl <;> cases hf <;> exact ⟨_, rfl⟩
  have hsingle {e : Expr} (h : e.IsKnown) : ∀ d ∈ [e], d.IsKnown := by simpa using h
  have hp : ∀ e ∈ p, e.IsKnown := by
    refine hsingle (.call "f" fun e he => ?_)
    simp only [List.mem_cons, List.not_mem_nil, or_false] at he
    rcases he with rfl | rfl | rfl
    · exact .call "g" (hsingle (.literal _))
    · exact .call "h" (hsingle (.literal _))
    · exact .call "n" (by simp)
  have hq : ∀ e ∈ q, e.IsKnown := by
    refine hsingle (.template fun e he => ?_)
    simp only [List.mem_cons, List.not_mem_nil, or_false] at he
    rcases he with rfl | rfl
    · exact .call "f" (hsingle (.call "g" (hsingle (.literal _))))
    · exact .identifier "n"
  constructor
  · obtain ⟨log, hlog, hrecords⟩ := (Host.evaluate_trace hp hl showing).1
      [.lookup "f", .lookup "g", .run "g" [.text "a"], .lookup "h"] (.run "h" [.text "b"]) _ _ rfl
      (by decide +kernel) rfl
    have hcalls : log = [⟨⟨"first"⟩, [.str "a"]⟩, ⟨⟨"fail"⟩, [.str "b"]⟩] :=
      (List.map_inj_right fun _ _ => Option.some.inj).1 hrecords
    rwa [hcalls] at hlog
  · obtain ⟨log, hlog, hruns⟩ := (Host.evaluate_trace hq hl showing).2 (by decide +kernel)
    have hcalls : log = [⟨⟨"first"⟩, [.str "a"]⟩, ⟨⟨"args"⟩, [.str "a"]⟩] :=
      (List.map_inj_right fun _ _ => Option.some.inj).1 hruns
    rwa [hcalls] at hlog

/-- A template fails at an integer beyond the digit limit, though no call node is in it. -/
theorem Host.evaluate_trace_overlong :
    let locals : Locals := [("n", .int (10 ^ Number.maxDigits))]
    let p : Phrase := [.template [.identifier "n"]]
    (∀ e ∈ p, e.IsKnown) ∧ locals.OnlyHostFunctions ∧
      p.events = [.write (.identifier "n")] ∧
      ∀ host : Host, host.evaluate p locals = (.error .overlongInteger, []) := by
  intro locals p
  have htext : (locals.value "n").hasText = false := Number.hasText_pow
  have hl : locals.OnlyHostFunctions := by
    refine Locals.onlyHostFunctions_of_forall fun entry hentry f hf => ?_
    obtain rfl := List.mem_singleton.1 hentry
    simp at hf
  have hp : ∀ e ∈ p, e.IsKnown :=
    List.forall_mem_singleton.2 (.template (List.forall_mem_singleton.2 (.identifier "n")))
  refine ⟨hp, hl, rfl, fun host => ?_⟩
  rw [Host.evaluate, Phrase.evaluate_template_overlong htext]

end MessageCatalog
