import MessageCatalog.Proofs.Assembling

/-!
# Positions

Positions are carried along and never looked at. Moving the tokens to other positions moves the open
constructs and the errors with them and changes nothing else; so tokens that differ only in their
positions are the same phrase.
-/
namespace MessageCatalog

variable (f : Nat → Nat)

def Token.relocate (t : Token) : Token := { t with position := f t.position }

def Construct.relocate : Construct → Construct
  | .interpolation p e => .interpolation (f p) e
  | .call p callee items last => .call (f p) callee items last
  | .array p items last => .array (f p) items last
  | .object p properties pending => .object (f p) properties pending
  | .template p parts => .template (f p) parts

def ItemList.relocate : ItemList → ItemList
  | .call p callee => .call (f p) callee
  | .array p => .array (f p)

theorem ItemList.relocate_construct (l : ItemList) (items : List Expr) (last : ListEnd) :
    (l.construct items last).relocate f = (l.relocate f).construct items last := by
  cases l <;> rfl

theorem ItemList.closer_relocate (l : ItemList) : (l.relocate f).closer = l.closer := by
  cases l <;> rfl

theorem ItemList.close_relocate (l : ItemList) : (l.relocate f).close = l.close := by
  cases l <;> rfl

def ParseError.relocate : ParseError → ParseError
  | .syntaxError e => .syntaxError { e with position := f e.position }
  | .malformedNumber text => .malformedNumber text

namespace Assembly

def relocate (s : Assembly) : Assembly := { s with stack := s.stack.map (Construct.relocate f) }

def relocated : Except ParseError Assembly → Except ParseError Assembly
  | .ok s => .ok (s.relocate f)
  | .error e => .error (e.relocate f)

variable (s : Assembly) (t : Token)

theorem relocate_update (c : Construct) :
    (s.update c).relocate f = (s.relocate f).update (c.relocate f) := by
  simp [relocate, update]

theorem relocate_deliver (e : Expr) : (s.deliver e).relocate f = (s.relocate f).deliver e := by
  obtain ⟨parts, stack⟩ := s
  cases stack with
  | nil => rfl
  | cons c below =>
    cases c with
    | interpolation p e' => cases e' <;> rfl
    | object p properties pending => cases pending <;> rfl
    | _ => rfl

theorem relocate_close (e : Expr) : (s.close e).relocate f = (s.relocate f).close e := by
  rw [close, relocate_deliver, close]
  simp [relocate]

theorem inTemplate_relocate (stack : List Construct) :
    inTemplate (stack.map (Construct.relocate f)) = inTemplate stack := by
  cases stack with
  | nil => rfl
  | cons c below => cases c <;> rfl

theorem expression_relocate :
    (s.relocate f).expression (t.relocate f) = relocated f (s.expression t) := by
  have hliteral : literalValue (t.relocate f) = literalValue t := rfl
  have hdeliver := relocate_deliver f s
  unfold expression
  have hkind : (t.relocate f).kind = t.kind := rfl
  rw [hkind]
  split
  · simp only [relocated, hdeliver, Token.relocate]
  iterate 4 rfl
  · split
    · rw [hliteral]
      cases hv : literalValue t with
      | ok v => simp only [Except.map, relocated, hdeliver]
      | error e =>
        obtain ⟨-, -, rfl⟩ := literalValue_error hv
        rfl
    · rfl

theorem textOr_relocate {other other' : Except ParseError Assembly}
    (h : other' = relocated f other) :
    (s.relocate f).textOr (t.relocate f) other' = relocated f (s.textOr t other) := by
  have hkind : (t.relocate f).kind = t.kind := rfl
  unfold textOr
  rw [hkind]
  split
  · simp only [relocated, relocate_deliver, Token.relocate]
  · rfl
  · exact h

theorem step_items_relocate (l : ItemList) {items : List Expr} {last : ListEnd}
    {below : List Construct} (hs : s.stack = l.construct items last :: below) :
    (s.relocate f).step (t.relocate f) = relocated f (s.step t) := by
  have hs' : (s.relocate f).stack =
      (l.relocate f).construct items last :: below.map (Construct.relocate f) := by
    rw [relocate, hs, List.map_cons, l.relocate_construct]
  have hkind : (t.relocate f).kind = t.kind := rfl
  rw [step_items (l.relocate f) hs', step_items l hs, hkind, l.closer_relocate, l.close_relocate]
  by_cases hcomma : t.kind = .comma
  · rw [if_pos hcomma, if_pos hcomma, relocated, relocate_update, l.relocate_construct]
  · rw [if_neg hcomma, if_neg hcomma]
    by_cases hcloser : t.kind = l.closer
    · rw [if_pos hcloser, if_pos hcloser, relocated, relocate_close]
    · rw [if_neg hcloser, if_neg hcloser, expression_relocate]

theorem step_relocate : (s.relocate f).step (t.relocate f) = relocated f (s.step t) := by
  have hclose := relocate_close f s
  have hupdate := relocate_update f s
  have hexpression := expression_relocate f s t
  have hkind : (t.relocate f).kind = t.kind := rfl
  cases hs : s.stack with
  | nil =>
    have hs' : (s.relocate f).stack = [] := by rw [relocate, hs]; rfl
    simp only [step, hs, hs']
    refine textOr_relocate f s t ?_
    rw [hkind]
    split <;> rfl
  | cons c below =>
    have hs' : (s.relocate f).stack = c.relocate f :: below.map (Construct.relocate f) := by
      rw [relocate, hs]; rfl
    cases c with
    | interpolation p e =>
      cases e with
      | none => simpa only [step, hs, hs', Construct.relocate] using hexpression
      | some e =>
        simp only [step, hs, hs', Construct.relocate, hkind, inTemplate_relocate]
        split
        · rw [relocated, hclose]
        · split <;> rfl
        · rfl
    | call p callee items last => exact step_items_relocate f s t (.call p callee) hs
    | array p items last => exact step_items_relocate f s t (.array p) hs
    | object p properties pending =>
      cases pending with
      | some key => simpa only [step, hs, hs', Construct.relocate] using hexpression
      | none =>
        simp only [step, hs, hs', Construct.relocate, hkind]
        split
        · rfl
        · rw [relocated, hclose]
        · rfl
        · rw [relocated, hupdate]; rfl
        · rfl
    | template p parts =>
      simp only [step, hs, hs', Construct.relocate]
      refine textOr_relocate f s t ?_
      rw [hkind]
      split
      · rw [relocated, hclose]
      · rfl

theorem run_relocate (ts : List Token) :
    (s.relocate f).run (ts.map (Token.relocate f)) = relocated f (s.run ts) := by
  induction ts generalizing s with
  | nil => rfl
  | cons t ts ih =>
    rw [List.map_cons, run, run, step_relocate]
    cases s.step t with
    | error e => rfl
    | ok s' => exact ih s'

theorem endFault?_relocate (n : Nat) :
    (s.relocate f).endFault? (f n) =
      (s.endFault? n).map fun e => { e with position := f e.position } := by
  obtain ⟨parts, stack⟩ := s
  cases stack with
  | nil => rfl
  | cons c below =>
    cases c with
    | interpolation p e =>
      cases e with
      | none => rfl
      | some e =>
        simp only [relocate, List.map_cons, Construct.relocate, endFault?, inTemplate_relocate]
        rfl
    | object p properties pending => cases pending <;> rfl
    | _ => rfl

end Assembly

theorem Token.lastPosition_relocate {ts : List Token} (h : ts ≠ []) :
    Token.lastPosition (ts.map (Token.relocate f)) = f (Token.lastPosition ts) := by
  have hlast := List.getLast?_eq_some_getLast h
  simp only [lastPosition, List.getLast?_map, hlast, Option.map_some, Option.getD_some]
  rfl

theorem Phrase.ofTokens_relocate (ts : List Token) :
    ofTokens (ts.map (Token.relocate f)) = (ofTokens ts).mapError (ParseError.relocate f) := by
  by_cases hts : ts = []
  · subst hts
    rfl
  · have hempty : ts.isEmpty = false := by simpa using hts
    have hrun := Assembly.run_relocate f Assembly.start ts
    have hstart : Assembly.start.relocate f = Assembly.start := rfl
    rw [hstart] at hrun
    simp only [ofTokens, List.isEmpty_map, hempty, hrun, Token.lastPosition_relocate f hts]
    cases Assembly.start.run ts with
    | error e => rfl
    | ok s =>
      simp only [Assembly.relocated, Assembly.endFault?_relocate]
      cases s.endFault? (Token.lastPosition ts) <;> rfl

def Token.unplaced (t : Token) : Token := t.relocate fun _ => 0

namespace Assembly

/-- Whether tokens are read to the end without anything left open does not depend on where they
are, nor do the expressions that they become. -/
theorem run_of_unplaced {ts us : List Token} {p : Phrase}
    (h : ts.map Token.unplaced = us.map Token.unplaced) (hr : start.run ts = .ok ⟨p, []⟩) :
    start.run us = .ok ⟨p, []⟩ := by
  have hts := run_relocate (fun _ => 0) start ts
  have hus := run_relocate (fun _ => 0) start us
  have hsame : ts.map (Token.relocate fun _ => 0) = us.map (Token.relocate fun _ => 0) := h
  rw [hsame, hus, hr] at hts
  cases hu : start.run us with
  | error e =>
    rw [hu] at hts
    cases hts
  | ok s =>
    obtain ⟨parts, stack⟩ := s
    rw [hu] at hts
    simp only [relocated, relocate, Except.ok.injEq, mk.injEq, List.map_nil, List.map_eq_nil_iff]
      at hts
    rw [hts.1, hts.2]

end Assembly

end MessageCatalog
