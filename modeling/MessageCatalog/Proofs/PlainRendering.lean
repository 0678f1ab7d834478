import MessageCatalog.Catalog.Session
import MessageCatalog.Proofs.MemoSoundness
import MessageCatalog.Proofs.Simulation

/-!
# Rendering without a memo

A rendering asks a memo what a text is parsed to. As long as the memo is sound it could as well
parse the text itself: the outcome and the calls of the host are the same, and the memo is left
sound. So all memos of a session stay sound, whatever its steps are.
-/
namespace MessageCatalog

namespace Catalog

def recordPlainly (call : HostCall) : Eval (List HostCall) Unit := modify (· ++ [call])

/-- The parts of the phrase under a key. Its text is parsed each time. -/
def plainParts (c : Catalog) (host : Host) : Nat → Value → Value → Eval (List HostCall) (List Value)
  | 0, _, _ => throw .tooDeep
  | depth + 1, key, context => do
    let (_, text) ← .lift (c.textOf key)
    let phrase ← .lift ((Phrase.parse text).mapError .phrase)
    let locals ← .lift (c.localsWith context)
    phrase.evaluate (c.call host recordPlainly (c.plainParts host depth)) locals

def plainText (c : Catalog) (host : Host) (depth : Nat) (key context : Value) :
    Eval (List HostCall) String := do
  Value.writeAll (← c.plainParts host depth key context)

end Catalog

def Tracks (r : RenderState) (calls : List HostCall) : Prop := r.memo.Sound ∧ r.calls = calls

namespace Catalog

variable {host : Host}

theorem call_related {σ τ : Type} {Rel : ∀ {α : Type}, Eval σ α → Eval τ α → Prop}
    (h : Compositional Rel) (c : Catalog) {record : HostCall → Eval σ Unit}
    {record' : HostCall → Eval τ Unit} {render : Value → Value → Eval σ (List Value)}
    {render' : Value → Value → Eval τ (List Value)}
    (hrecord : ∀ call, Rel (record call) (record' call))
    (hrender : ∀ key context, Rel (render key context) (render' key context))
    (f : Callable) (arguments : List Value) :
    Rel (c.call host record render f arguments) (c.call host record' render' f arguments) := by
  have htext (key context : Value) :
      Rel (do return Value.str (← Value.writeAll (← render key context)))
        (do return Value.str (← Value.writeAll (← render' key context))) :=
    h.bind (hrender key context) fun _ => h.bind (h.lift _) fun _ => h.pure _
  unfold call
  split
  · exact h.bind (hrecord _) fun _ => h.lift _
  · exact htext _ _
  · exact htext _ _
  · exact h.bind (hrender _ _) fun _ => h.pure _
  · exact h.bind (hrender _ _) fun _ => h.pure _
  iterate 3 exact h.lift _
  · exact h.throw _

theorem record_simulates (call : HostCall) : Simulates Tracks (record call) (recordPlainly call) := by
  intro r calls h
  obtain ⟨hm, rfl⟩ := h
  exact .ok () ⟨hm, rfl⟩

theorem phraseOf_simulates (key text : String) : Simulates Tracks (phraseOf key text)
    (.lift ((Phrase.parse text).mapError .phrase)) := by
  intro r calls h
  obtain ⟨hm, rfl⟩ := h
  obtain ⟨hp, hs⟩ := hm.getOrParse key text
  unfold phraseOf
  split
  · next phrase memo hr =>
    rw [hr] at hp hs
    rw [← hp]
    exact .ok phrase ⟨hs, rfl⟩
  · next e memo hr =>
    rw [hr] at hp hs
    rw [← hp]
    exact .error _ ⟨hs, rfl⟩

theorem renderParts_simulates (c : Catalog) (host : Host) (depth : Nat) (key context : Value) :
    Simulates Tracks (c.renderParts host depth key context) (c.plainParts host depth key context) := by
  induction depth generalizing key context with
  | zero => exact .throw _
  | succ depth ih =>
    -- The phrase itself may render others: its helpers simulate each other by `ih`.
    have hc := Simulates.compositional Tracks
    refine .bind (hc.lift _) fun s => ?_
    refine .bind (phraseOf_simulates s.1 s.2) fun phrase => ?_
    refine .bind (hc.lift _) fun locals => ?_
    exact phrase.evaluate_related hc (call_related hc c record_simulates ih) locals

theorem render_simulates (c : Catalog) (host : Host) (depth : Nat) (key context : Value) :
    Simulates Tracks (c.render host depth key context) (c.plainText host depth key context) :=
  .bind (c.renderParts_simulates host depth key context) fun _ =>
    (Simulates.compositional Tracks).lift _

theorem sound_extendMessages {c c' : Catalog} {memo memo' : ParseMemo} (hm : memo.Sound)
    {messages : List (Value × Value)} (h : c.extendMessages memo messages = .ok (c', memo')) :
    memo'.Sound := by
  unfold extendMessages at h
  split at h
  · contradiction
  · cases h
    exact hm.evictMany _

end Catalog

namespace Session

variable {s : Session} {host : Host} {depth : Nat}

def Sound (s : Session) : Prop := ∀ e ∈ s.memos, e.2.Sound

theorem sound_empty : Sound .empty := fun _ he => (List.not_mem_nil he).elim

theorem Sound.memo_of_lookup (h : s.Sound) {name : String} {memo : ParseMemo}
    (hl : s.memos.lookup name = some memo) : memo.Sound :=
  h _ (Entries.mem_of_lookup hl)

theorem Sound.lookup_getD (h : s.Sound) (name : String) (environment : Option String)
    (flag : Option Bool) : ((s.memos.lookup name).getD (.new environment flag)).Sound := by
  cases hl : s.memos.lookup name with
  | none => exact ParseMemo.sound_new _ _
  | some memo => exact h.memo_of_lookup hl

theorem Sound.memoNamed (h : s.Sound) (name : String) : (s.memoNamed name).Sound :=
  h.lookup_getD name _ _

theorem Sound.put (h : s.Sound) (name : String) {memo : ParseMemo} (hm : memo.Sound) :
    ∀ e ∈ Entries.put name memo s.memos, e.2.Sound := by
  intro e he
  rcases Entries.mem_of_mem_put he with rfl | he
  · exact hm
  · exact h e he

theorem Sound.tracks (h : s.Sound) (shelf : Shelf) : Tracks (s.renderState shelf) s.calls :=
  ⟨h.memoNamed _, rfl⟩

theorem sound_finish {α : Type} (h : s.Sound) (memoName : String) (answer : α → SessionAnswer)
    {r : EStateM.Result RenderError RenderState α}
    {q : EStateM.Result RenderError (List HostCall) α} (ha : Agree Tracks r q) :
    (s.finish memoName answer r).2.Sound := by
  cases ha with
  | ok a ht => exact h.put memoName ht.1
  | error e ht => exact h.put memoName ht.1

theorem sound_act (h : s.Sound) (id : String) (shelf : Shelf) (action : CatalogAction) :
    (s.act host depth id shelf action).2.Sound := by
  cases action with
  | extendMessages messages =>
    rw [act]
    split
    · exact h
    · next hextend => exact h.put _ (Catalog.sound_extendMessages (h.memoNamed _) hextend)
  | render key context =>
    exact sound_finish h _ _
      (shelf.catalog.render_simulates host depth key context _ _ (h.tracks shelf))
  | renderParts key context =>
    exact sound_finish h _ _
      (shelf.catalog.renderParts_simulates host depth key context _ _ (h.tracks shelf))
  | extendContext | has | isMemoized | keys | texts | context | category | select => exact h

theorem sound_apply (h : s.Sound) (step : SessionStep) : (s.apply host depth step).2.Sound := by
  cases step with
  | new id locale messages context memoName environment flag =>
    have hm := h.lookup_getD memoName environment flag
    rw [apply]
    split
    · exact h.put memoName hm
    · next hextend => exact h.put memoName (Catalog.sound_extendMessages hm hextend)
  | act id action =>
    rw [apply]
    split
    · exact h
    · exact sound_act h id _ action
  | memo name step =>
    rw [apply]
    split
    · exact h
    · next hm => exact h.put name (MemoStep.sound_apply (h.memo_of_lookup hm) step)

end Session

end MessageCatalog
