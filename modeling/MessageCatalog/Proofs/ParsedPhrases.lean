import MessageCatalog.Proofs.KnownNodes
import MessageCatalog.Proofs.OpenConstructs
import MessageCatalog.Proofs.Spans
import MessageCatalog.Proofs.Spelling

/-!
# Parsed phrases

What is parsed from a text can be evaluated: there is a node in it, every name in it is one that can
be written down, objects have distinct keys, and literals have the values that tokens stand for. The
names come from the scanner and are kept as they are, so the assembly only has to keep what it is
handed well-formed, in its finished parts and in all open constructs.
-/
namespace MessageCatalog
open Scan

inductive Value.IsLiteral : Value → Prop where
  | writable {v : Value} : v.IsWritable → v.hasText = true → IsLiteral v
  | float (x : Number.Binary64) : IsLiteral (.float x)

theorem Value.IsLiteral.hasText {v : Value} (h : v.IsLiteral) : v.hasText = true := by
  cases h with
  | writable _ htext => exact htext
  | float x => rfl

abbrev Expr.IsParsed (e : Expr) : Prop := e.WellFormed Value.IsLiteral

theorem Expr.isParsed_text (s : String) : (Expr.text s).IsParsed :=
  .literal (.writable (.str s) rfl)

theorem Expr.isParsed_elided : Expr.elided.IsParsed := .literal (.writable .undefined rfl)

theorem forall_mem_concat {α : Type} {P : α → Prop} {as : List α} {a : α} (has : ∀ b ∈ as, P b)
    (ha : P a) : ∀ b ∈ as ++ [a], P b :=
  List.forall_mem_append.2 ⟨has, List.forall_mem_singleton.2 ha⟩

structure IsProperties (ps : List (String × Expr)) : Prop where
  nodup : (ps.map Prod.fst).Nodup
  names : ∀ p ∈ ps, IsName p.1
  values : ∀ p ∈ ps, p.2.IsParsed

theorem IsProperties.put {ps : List (String × Expr)} (h : IsProperties ps) {key : String} {e : Expr}
    (hkey : IsName key) (he : e.IsParsed) : IsProperties (Entries.put key e ps) where
  nodup := Entries.nodup_put h.nodup
  names p hp := by
    rcases Entries.mem_of_mem_put hp with rfl | hp
    · exact hkey
    · exact h.names p hp
  values p hp := by
    rcases Entries.mem_of_mem_put hp with rfl | hp
    · exact he
    · exact h.values p hp

def Construct.IsSound : Construct → Prop
  | .interpolation _ e => ∀ d ∈ e, d.IsParsed
  | .call _ callee items _ => IsName callee ∧ ∀ e ∈ items, e.IsParsed
  | .array _ items _ => ∀ e ∈ items, e.IsParsed
  | .object _ properties pending => IsProperties properties ∧ ∀ key ∈ pending, IsName key
  | .template _ parts => ∀ e ∈ parts, e.IsParsed

def Token.IsNamed (t : Token) : Prop :=
  t.kind = .identifier ∨ t.kind = .functionCall ∨ t.kind = .propertyName → IsName t.value

theorem ListEnd.atComma_isParsed {items : List Expr} (h : ∀ e ∈ items, e.IsParsed)
    (last : ListEnd) : ∀ e ∈ last.atComma items, e.IsParsed := by
  cases last with
  | item => exact h
  | opened | comma => exact forall_mem_concat h Expr.isParsed_elided

theorem ListEnd.atClose_isParsed {items : List Expr} (h : ∀ e ∈ items, e.IsParsed)
    (last : ListEnd) : ∀ e ∈ last.atClose items, e.IsParsed := by
  cases last with
  | comma => exact forall_mem_concat h Expr.isParsed_elided
  | opened | item => exact h

namespace Assembly

structure IsSound (s : Assembly) : Prop where
  parts : ∀ e ∈ s.parts, e.IsParsed
  stack : ∀ c ∈ s.stack, c.IsSound

variable {s s' : Assembly} {t : Token} {e : Expr} {c : Construct}

namespace IsSound

theorem push (h : s.IsSound) (hc : c.IsSound) : (s.push c).IsSound :=
  ⟨h.parts, List.forall_mem_cons.2 ⟨hc, h.stack⟩⟩

theorem update (h : s.IsSound) (hc : c.IsSound) : (s.update c).IsSound :=
  ⟨h.parts, List.forall_mem_cons.2 ⟨hc, fun d hd => h.stack d (List.mem_of_mem_tail hd)⟩⟩

theorem top {below : List Construct} (h : s.IsSound) (hs : s.stack = c :: below) : c.IsSound :=
  h.stack c (hs ▸ List.mem_cons_self)

theorem deliver (h : s.IsSound) (he : e.IsParsed) : (s.deliver e).IsSound := by
  unfold Assembly.deliver
  split
  · exact ⟨forall_mem_concat h.parts he, h.stack⟩
  · exact h.update fun d hd => Option.mem_some_iff.1 hd ▸ he
  · next hs =>
    obtain ⟨hcallee, hitems⟩ := h.top hs
    exact h.update ⟨hcallee, forall_mem_concat hitems he⟩
  · next hs => exact h.update (forall_mem_concat (h.top hs) he)
  · next hs =>
    obtain ⟨hproperties, hkey⟩ := h.top hs
    exact h.update ⟨hproperties.put (hkey _ rfl) he, by simp⟩
  · next hs => exact h.update (forall_mem_concat (h.top hs) he)
  · exact h
  · exact h

theorem close (h : s.IsSound) (he : e.IsParsed) : (s.close e).IsSound :=
  deliver ⟨h.parts, fun c hc => h.stack c (List.mem_of_mem_tail hc)⟩ he

end IsSound

theorem isLiteral_of_numberValue {text : String} {v : Value} (h : numberValue? text = some v) :
    v.IsLiteral := by
  unfold numberValue? at h
  split at h
  · obtain ⟨x, -, rfl⟩ := Option.map_eq_some_iff.1 h
    exact .float x
  · obtain ⟨n, hn, rfl⟩ := Option.map_eq_some_iff.1 h
    exact .writable (.int n) (Number.hasText_of_readInteger? hn)

theorem isLiteral_of_literalValue {v : Value} (h : literalValue t = .ok v) : v.IsLiteral := by
  unfold literalValue at h
  split at h
  · cases h
    exact .writable (.bool _) rfl
  · cases h
    exact .writable .null rfl
  · cases h
    exact .writable .undefined rfl
  · split at h
    · next hv =>
      cases h
      exact isLiteral_of_numberValue hv
    · contradiction
  · cases h
    exact .writable (.str _) rfl

theorem expression_isSound (hs : s.IsSound) (ht : t.IsNamed) (h : s.expression t = .ok s') :
    s'.IsSound := by
  unfold expression at h
  split at h
  · next hk =>
    cases h
    exact hs.deliver (.identifier (ht (.inl hk)))
  · next hk =>
    cases h
    exact hs.push ⟨ht (.inr (.inl hk)), by simp⟩
  · cases h
    exact hs.push (c := .array _ [] _) (by simp [Construct.IsSound])
  · cases h
    exact hs.push (c := .object _ [] none) ⟨⟨by simp, by simp, by simp⟩, by simp⟩
  · cases h
    exact hs.push (c := .template _ []) (by simp [Construct.IsSound])
  · split at h
    · cases hv : literalValue t with
      | error e => simp [hv, Except.map] at h
      | ok v =>
        simp only [hv, Except.map, Except.ok.injEq] at h
        subst h
        exact hs.deliver (.literal (isLiteral_of_literalValue hv))
    · contradiction

theorem textOr_isSound (hs : s.IsSound) {other : Except ParseError Assembly}
    (ho : other = .ok s' → s'.IsSound) (h : s.textOr t other = .ok s') : s'.IsSound := by
  unfold textOr at h
  split at h
  · cases h
    exact hs.deliver (Expr.isParsed_text t.value)
  · cases h
    exact hs.push (c := .interpolation _ none) (by simp [Construct.IsSound])
  · exact ho h

theorem step_isSound (hs : s.IsSound) (ht : t.IsNamed) (h : s.step t = .ok s') : s'.IsSound := by
  unfold step at h
  split at h
  · refine textOr_isSound hs (fun ho => ?_) h
    split at ho
    · cases ho
      exact hs
    · cases ho
      exact hs
    · contradiction
  · exact expression_isSound hs ht h
  · next hstack =>
    split at h
    · cases h
      exact hs.close (hs.top hstack _ rfl)
    · split at h <;> contradiction
    · contradiction
  · next hstack =>
    obtain ⟨hcallee, hitems⟩ := hs.top hstack
    split at h
    · cases h
      exact hs.update ⟨hcallee, ListEnd.atComma_isParsed hitems _⟩
    · cases h
      exact hs.close (.call hcallee (ListEnd.atClose_isParsed hitems _))
    · exact expression_isSound hs ht h
  · next hstack =>
    have hitems := hs.top hstack
    split at h
    · cases h
      exact hs.update (c := .array ..) (ListEnd.atComma_isParsed hitems _)
    · cases h
      exact hs.close (.array (ListEnd.atClose_isParsed hitems _))
    · exact expression_isSound hs ht h
  · next hstack =>
    -- Between properties: only here a name is kept for later, as a pending key.
    obtain ⟨hproperties, -⟩ := hs.top hstack
    split at h
    · cases h
      exact hs
    · cases h
      exact hs.close (.object hproperties.nodup hproperties.names hproperties.values)
    · contradiction
    · next hk =>
      cases h
      exact hs.update ⟨hproperties, fun key hkey =>
        Option.mem_some_iff.1 hkey ▸ ht (.inr (.inr hk))⟩
    · contradiction
  · exact expression_isSound hs ht h
  · next hstack =>
    refine textOr_isSound hs (fun ho => ?_) h
    split at ho
    · cases ho
      exact hs.close (.template (hs.top hstack))
    · contradiction

theorem run_isSound {ts : List Token} (hs : s.IsSound) (ht : ∀ t ∈ ts, t.IsNamed)
    (h : s.run ts = .ok s') : s'.IsSound :=
  run_preserves (fun t hmem _ _ hs hstep => step_isSound hs (ht t hmem) hstep) hs h

def IsBegun (s : Assembly) : Prop := s.parts ≠ [] ∨ s.stack ≠ []

theorem deliver_isBegun (s : Assembly) (e : Expr) : (s.deliver e).IsBegun := by
  unfold deliver
  split <;> simp_all [IsBegun, update]

theorem Move.isBegun (h : Move s t s') :
    s'.IsBegun ∨ s' = s ∧ s.stack = [] ∧ (t.kind = .expressionEnd ∨ t.kind = .braceEnd) := by
  cases h with
  | hand e _ => exact .inl (deliver_isBegun s e)
  | begin c _ => exact .inl (.inr (by simp))
  | change d _ _ _ => exact .inl (.inr (by simp [update]))
  | finish e _ _ => exact .inl (deliver_isBegun _ e)
  | ignore hs hk => exact .inr ⟨rfl, hs, hk⟩

theorem run_isBegun {ts : List Token} (hs : s.IsBegun) (h : s.run ts = .ok s') : s'.IsBegun := by
  refine run_preserves (fun t _ s s₁ hs hstep => ?_) hs h
  rcases (step_move hstep).isBegun with hs₁ | ⟨rfl, -⟩
  · exact hs₁
  · exact hs

end Assembly

namespace Phrase

open Assembly

theorem isNamed_of_emits {σ τ : State} {ts : List Token} (h : Emits σ ts τ) :
    ∀ t ∈ ts, t.IsNamed := by
  intro t ht hk
  obtain ⟨mode, span, rest, hspells⟩ := h.spells t ht
  exact hspells.isName hk

theorem run_start_isBegun {text : String} {t : Token} {ts : List Token} {σ : State} {s : Assembly}
    (he : Emits (.start text) (t :: ts) σ) (hs : Assembly.start.run (t :: ts) = .ok s) :
    s.IsBegun := by
  cases he with
  | next hn _ =>
    have hfits : t.kind = .string ∨ t.kind = .expressionStart := next_fits hn
    obtain ⟨s₁, hstep, hrun⟩ := exists_step_of_run_ok hs
    rcases (step_move hstep).isBegun with hs₁ | ⟨-, -, hk⟩
    · exact run_isBegun hs₁ hrun
    · rcases hfits with hf | hf <;> simp [hf] at hk

theorem isParsed_of_parse {text : String} {p : Phrase} (hp : parse text = .ok p) :
    p ≠ [] ∧ ∀ e ∈ p, e.IsParsed := by
  cases hscan : Token.scan text with
  | error e =>
    rw [parse, hscan] at hp
    contradiction
  | ok ts =>
    rw [parse_eq_ofTokens hscan] at hp
    cases ts with
    | nil =>
      cases hp
      exact ⟨by simp, by simpa using Expr.isParsed_text ""⟩
    | cons t ts =>
      rw [ofTokens_eq_ok_iff (by simp)] at hp
      rw [State.scan_eq_tokens, ← List.append_nil (t :: ts)] at hscan
      obtain ⟨σ, hσ, -⟩ := exists_emits_of_tokens hscan
      have hstart : Assembly.start.IsSound := ⟨by simp [start], by simp [start]⟩
      have hsound := run_isSound hstart (isNamed_of_emits hσ) hp
      have hbegun := run_start_isBegun hσ hp
      exact ⟨by simpa [IsBegun] using hbegun, hsound.parts⟩

end Phrase

end MessageCatalog
