import MessageCatalog.Proofs.PlainRendering
import MessageCatalog.Proofs.RenderedText

/-!
# Depth of rendering

The bound on how deep phrases may render each other only decides whether a rendering comes to an
end: one that does not get too deep has the same outcome under every larger bound. A rendering does
not look at earlier calls of the host either, so its outcome depends on the catalog alone.
-/
namespace MessageCatalog

/-- Whether the second computation gives what the first does, unless the first gets too deep. -/
def Deepens {σ α : Type} (x y : Eval σ α) : Prop :=
  ∀ s, y s = x s ∨ ∃ s', x s = .error .tooDeep s'

namespace Deepens

variable {σ α β : Type} {x y z : Eval σ α}

theorem refl (x : Eval σ α) : Deepens x x := fun _ => .inl rfl

theorem trans (hxy : Deepens x y) (hyz : Deepens y z) : Deepens x z := by
  intro s
  obtain hy | hdeep := hxy s
  · rw [← hy]
    exact hyz s
  · exact .inr hdeep

theorem bind {f g : α → Eval σ β} (hx : Deepens x y) (hf : ∀ a, Deepens (f a) (g a)) :
    Deepens (x >>= f) (y >>= g) := by
  intro s
  change EStateM.bind y g s = EStateM.bind x f s ∨ ∃ s', EStateM.bind x f s = .error .tooDeep s'
  unfold EStateM.bind
  obtain hy | ⟨s', hdeep⟩ := hx s
  · rw [hy]
    cases x s with
    | ok a s' => exact hf a s'
    | error e s' => exact .inl rfl
  · rw [hdeep]
    exact .inr ⟨s', rfl⟩

theorem compositional : Compositional (Deepens (σ := σ)) :=
  ⟨fun _ => refl _, fun _ => refl _, bind⟩

theorem outcome {x y : Eval (List HostCall) α} (h : Deepens x y) (log : List HostCall)
    (hx : (Host.outcome x log).1 ≠ .error .tooDeep) : Host.outcome y log = Host.outcome x log := by
  unfold Host.outcome at hx ⊢
  obtain hy | ⟨s', hdeep⟩ := h log
  · rw [hy]
  · rw [hdeep] at hx
    exact absurd rfl hx

end Deepens

namespace Catalog

variable (c : Catalog) (host : Host)

def plainJoined (depth : Nat) (p : Phrase) (locals : Locals) :
    Eval (List HostCall) (Option String) :=
  p.joined (c.call host recordPlainly (c.plainParts host depth)) locals

theorem call_deepens {depth depth' : Nat} (h : ∀ key context,
      Deepens (c.plainParts host depth key context) (c.plainParts host depth' key context))
    (f : Callable) (vs : List Value) :
    Deepens (c.call host recordPlainly (c.plainParts host depth) f vs)
      (c.call host recordPlainly (c.plainParts host depth') f vs) :=
  call_related Deepens.compositional c (fun _ => .refl _) h f vs

theorem plainParts_deepens_succ (depth : Nat) (key context : Value) :
    Deepens (c.plainParts host depth key context) (c.plainParts host (depth + 1) key context) := by
  induction depth generalizing key context with
  | zero => exact fun s => .inr ⟨s, rfl⟩
  | succ depth ih =>
    refine .bind (.refl _) fun s => .bind (.refl _) fun phrase => .bind (.refl _) fun locals => ?_
    exact phrase.evaluate_related Deepens.compositional (c.call_deepens host ih) locals

theorem plainParts_deepens {depth depth' : Nat} (h : depth ≤ depth') (key context : Value) :
    Deepens (c.plainParts host depth key context) (c.plainParts host depth' key context) := by
  induction h with
  | refl => exact .refl _
  | step _ ih => exact ih.trans (c.plainParts_deepens_succ host _ key context)

theorem plainText_deepens {depth depth' : Nat} (h : depth ≤ depth') (key context : Value) :
    Deepens (c.plainText host depth key context) (c.plainText host depth' key context) :=
  .bind (c.plainParts_deepens host h key context) fun _ => .refl _

theorem plainJoined_deepens {depth depth' : Nat} (h : depth ≤ depth') (p : Phrase)
    (locals : Locals) :
    Deepens (c.plainJoined host depth p locals) (c.plainJoined host depth' p locals) :=
  .bind (p.evaluate_related Deepens.compositional
    (c.call_deepens host (c.plainParts_deepens host h)) locals) fun _ => .refl _

theorem ignoresCalls_call {depth : Nat}
    (h : ∀ key context, Host.IgnoresCalls (c.plainParts host depth key context)) (f : Callable)
    (vs : List Value) :
    Host.IgnoresCalls (c.call host recordPlainly (c.plainParts host depth) f vs) :=
  fun log => call_related (Simulates.compositional _) c
    (fun call => Host.ignoresCalls_modify call log) (fun key context => h key context log) f vs

theorem ignoresCalls_plainParts (depth : Nat) (key context : Value) :
    Host.IgnoresCalls (c.plainParts host depth key context) := by
  induction depth generalizing key context with
  | zero => exact fun log => .throw _
  | succ depth ih =>
    intro log
    have hc := Simulates.compositional fun s t : List HostCall => s = log ++ t
    refine .bind (hc.lift _) fun s => ?_
    refine .bind (hc.lift _) fun phrase => ?_
    refine .bind (hc.lift _) fun locals => ?_
    exact phrase.evaluate_related hc (fun f vs => c.ignoresCalls_call host ih f vs log) locals

theorem ignoresCalls_plainText (depth : Nat) (key context : Value) :
    Host.IgnoresCalls (c.plainText host depth key context) := fun log =>
  .bind (c.ignoresCalls_plainParts host depth key context log) fun _ =>
    (Simulates.compositional _).lift _

theorem ignoresCalls_plainJoined (depth : Nat) (p : Phrase) (locals : Locals) :
    Host.IgnoresCalls (c.plainJoined host depth p locals) :=
  Host.ignoresCalls_joined (c.ignoresCalls_call host (c.ignoresCalls_plainParts host depth)) p locals

/-- Whether a rendering ends, with this outcome, if it may get deep enough. -/
def EndsWith {α : Type} (x : Nat → Eval (List HostCall) α)
    (result : Except RenderError α × List HostCall) : Prop :=
  result.1 ≠ .error .tooDeep ∧ ∃ depth, Host.outcome (x depth) [] = result

def Evaluates (p : Phrase) (locals : Locals) :=
  EndsWith fun depth => c.plainJoined host depth p locals

def Renders (key context : Value) := EndsWith fun depth => c.plainText host depth key context

variable {c host}

theorem EndsWith.eventually {α : Type} {x : Nat → Eval (List HostCall) α}
    {result : Except RenderError α × List HostCall}
    (hx : ∀ depth depth', depth ≤ depth' → Deepens (x depth) (x depth')) (h : EndsWith x result) :
    ∃ least, ∀ depth, least ≤ depth → Host.outcome (x depth) [] = result := by
  obtain ⟨hends, least, rfl⟩ := h
  exact ⟨least, fun depth hle => (hx least depth hle).outcome [] hends⟩

theorem Evaluates.eventually {p : Phrase} {locals : Locals}
    {result : Except RenderError (Option String) × List HostCall}
    (h : c.Evaluates host p locals result) :
    ∃ least, ∀ depth, least ≤ depth → Host.outcome (c.plainJoined host depth p locals) [] = result :=
  EndsWith.eventually (fun _ _ hle => c.plainJoined_deepens host hle p locals) h

theorem Renders.eventually {key context : Value}
    {result : Except RenderError String × List HostCall} (h : c.Renders host key context result) :
    ∃ least, ∀ depth, least ≤ depth → Host.outcome (c.plainText host depth key context) [] = result :=
  EndsWith.eventually (fun _ _ hle => c.plainText_deepens host hle key context) h

end Catalog

namespace Session

variable {s : Session} {id : String} {shelf : Shelf} {host : Host}

inductive Reached (host : Host) : Session → Prop where
  | empty : Reached host .empty
  | apply {s : Session} (depth : Nat) (step : SessionStep) :
      Reached host s → Reached host (s.apply host depth step).2

theorem Reached.sound (h : s.Reached host) : s.Sound := by
  induction h with
  | empty => exact sound_empty
  | apply depth step _ ih => exact sound_apply ih step

def Answers (host : Host) (depth : Nat) (s : Session) (id : String) (action : CatalogAction)
    (result : Except RenderError String × List HostCall) : Prop :=
  (s.apply host depth (.act id action)).1 = textAnswer result.1 ∧
    (s.apply host depth (.act id action)).2.calls = s.calls ++ result.2

theorem answers_render (host : Host) (hs : s.Sound) (hshelf : s.shelves.lookup id = some shelf)
    (depth : Nat) (key context : Value) : s.Answers host depth id (.render key context)
      (Host.outcome (shelf.catalog.plainText host depth key context) []) := by
  have hafter :=
    (shelf.catalog.ignoresCalls_plainText host depth key context).outcome_after s.calls
  have hrender := shelf.catalog.render_simulates host depth key context _ _ (hs.tracks shelf)
  have happly : s.apply host depth (.act id (.render key context)) = s.finish shelf.memoName .text
      (shelf.catalog.render host depth key context (s.renderState shelf)) := by
    rw [apply, hshelf]
    rfl
  unfold Answers
  rw [happly]
  unfold Host.outcome at hafter ⊢
  generalize shelf.catalog.render host depth key context (s.renderState shelf) = r at hrender
  generalize shelf.catalog.plainText host depth key context s.calls = q at hrender hafter
  generalize shelf.catalog.plainText host depth key context [] = alone at hafter ⊢
  cases hrender with
  | ok a ht =>
    cases alone <;> cases hafter
    exact ⟨rfl, ht.2⟩
  | error e ht =>
    cases alone <;> cases hafter
    exact ⟨rfl, ht.2⟩

end Session

end MessageCatalog
