import MessageCatalog.Rendering.Host

/-!
# Mentioned names

A phrase looks up the names of its identifiers and those of its calls, and no others. So where two
contexts treat these names alike, every step of an evaluation is the same with both: what the parts
are, where it fails, and what the functions have done by then.
-/
namespace MessageCatalog

namespace Expr

mutual

def names : Expr → List String
  | .literal _ | .unknown _ => []
  | .identifier name => [name]
  | .call name arguments => name :: namesAll arguments
  | .array elements => namesAll elements
  | .object properties => namesProperties properties
  | .template parts => namesAll parts

def namesAll : List Expr → List String
  | [] => []
  | e :: rest => names e ++ namesAll rest

def namesProperties : List (String × Expr) → List String
  | [] => []
  | (_, e) :: rest => names e ++ namesProperties rest

end

end Expr

def Phrase.names (p : Phrase) : List String := Expr.namesAll p

/-- Some names have the same values; one that is not bound has the value undefined. -/
def Locals.AgreeOn (names : List String) (locals locals' : Locals) : Prop :=
  ∀ name ∈ names, locals.value name = locals'.value name

namespace Locals.AgreeOn

variable {name : String} {names names' : List String} {locals locals' : Locals}

theorem head (h : AgreeOn (name :: names) locals locals') :
    locals.value name = locals'.value name :=
  h name List.mem_cons_self

theorem tail (h : AgreeOn (name :: names) locals locals') : AgreeOn names locals locals' :=
  fun n hn => h n (List.mem_cons_of_mem name hn)

theorem left (h : AgreeOn (names ++ names') locals locals') : AgreeOn names locals locals' :=
  fun n hn => h n (List.mem_append_left names' hn)

theorem right (h : AgreeOn (names ++ names') locals locals') : AgreeOn names' locals locals' :=
  fun n hn => h n (List.mem_append_right names hn)

end Locals.AgreeOn

section Evaluation

variable {σ : Type} {call : Callable → List Value → Eval σ Value} {locals locals' : Locals}

mutual

theorem Expr.evaluate_agreeOn (e : Expr) (h : locals.AgreeOn e.names locals') :
    e.evaluate call locals = e.evaluate call locals' := by
  cases e with
  | literal | unknown => rfl
  | identifier name => exact congrArg pure h.head
  | call name arguments =>
    have hcallee : callee locals name = callee locals' name := by rw [callee, callee, h.head]
    rw [evaluate, evaluate, hcallee, evaluateAll_agreeOn arguments h.tail]
  | array elements => rw [evaluate, evaluate, evaluateAll_agreeOn elements h]
  | object properties => rw [evaluate, evaluate, evaluateProperties_agreeOn properties h]
  | template parts => rw [evaluate, evaluate, evaluateText_agreeOn parts h]

theorem Expr.evaluateAll_agreeOn (es : List Expr) (h : locals.AgreeOn (namesAll es) locals') :
    evaluateAll call locals es = evaluateAll call locals' es := by
  cases es with
  | nil => rfl
  | cons e es =>
    rw [evaluateAll, evaluateAll, evaluate_agreeOn e h.left, evaluateAll_agreeOn es h.right]

theorem Expr.evaluateProperties_agreeOn (ps : List (String × Expr))
    (h : locals.AgreeOn (namesProperties ps) locals') :
    evaluateProperties call locals ps = evaluateProperties call locals' ps := by
  cases ps with
  | nil => rfl
  | cons p ps =>
    obtain ⟨name, e⟩ := p
    rw [evaluateProperties, evaluateProperties, evaluate_agreeOn e h.left,
      evaluateProperties_agreeOn ps h.right]

theorem Expr.evaluateText_agreeOn (es : List Expr) (h : locals.AgreeOn (namesAll es) locals') :
    evaluateText call locals es = evaluateText call locals' es := by
  cases es with
  | nil => rfl
  | cons e es =>
    rw [evaluateText, evaluateText, evaluate_agreeOn e h.left, evaluateText_agreeOn es h.right]

end

end Evaluation

/-- Evaluating a phrase depends on the names that it mentions alone. Contexts that agree on these
give the same computation, however functions run; with the functions of a host they give the same
parts or the same failure, and the same calls up to there. -/
theorem evaluate_mentioned {p : Phrase} {locals locals' : Locals}
    (h : locals.AgreeOn p.names locals') :
    (∀ {σ : Type} (call : Callable → List Value → Eval σ Value),
      p.evaluate call locals = p.evaluate call locals') ∧
    ∀ host : Host, host.evaluate p locals = host.evaluate p locals' := by
  have hp : ∀ {σ : Type} (call : Callable → List Value → Eval σ Value),
      p.evaluate call locals = p.evaluate call locals' := fun call =>
    Expr.evaluateAll_agreeOn p h
  refine ⟨hp, fun host => ?_⟩
  rw [Host.evaluate, Host.evaluate, hp]

theorem evaluate_mentioned_failing :
    let p : Phrase := [.array [.call "f" [.identifier "a"]],
      .object [("k", .call "g" [.identifier "b"])]]
    let locals : Locals := [("a", .int 1), ("b", .undefined), ("f", .function (.host ⟨"first"⟩)),
      ("g", .function (.host ⟨"fail"⟩))]
    let locals' : Locals := [("g", .function (.host ⟨"fail"⟩)), ("k", .str "x"),
      ("f", .function (.host ⟨"first"⟩)), ("a", .int 1)]
    locals.AgreeOn p.names locals' ∧
    (∀ host : Host, host.evaluate p locals = host.evaluate p locals') ∧
    Host.showing.evaluate p locals' = (.error (.host ⟨"HostError", "boom"⟩),
      [⟨⟨"first"⟩, [.int 1]⟩, ⟨⟨"fail"⟩, [.undefined]⟩]) := by
  intro p locals locals'
  have h : locals.AgreeOn p.names locals' := by
    intro name hname
    simp only [p, Phrase.names, Expr.namesAll, Expr.names, Expr.namesProperties, List.cons_append,
      List.nil_append, List.append_nil, List.mem_cons, List.not_mem_nil, or_false] at hname
    rcases hname with rfl | rfl | rfl | rfl <;> rfl
  exact ⟨h, (evaluate_mentioned h).2, rfl⟩

end MessageCatalog
