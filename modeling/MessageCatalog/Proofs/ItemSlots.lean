import Mathlib.Data.List.Forall2
import MessageCatalog.Proofs.ReadExpressions

/-!
# Items that are left out

Calls and arrays read their items in the same way. The commas of a list cut it into segments; each
segment that has no item in it leaves an undefined one, unless there is no comma at all. A comma
within an item belongs to that item: it stands where another construct is open.
-/
namespace MessageCatalog

/-- Tokens cut at the commas that stand where nothing is open among them. -/
def cutAtCommas (opened : List Opener) : List Token → List (List Token)
  | [] => [[]]
  | t :: ts =>
    let segments := cutAtCommas (openAfter opened t.kind) ts
    if opened = [] ∧ t.kind = .comma then [] :: segments else segments.modifyHead (t :: ·)

def countCommas (opened : List Opener) : List Token → Nat
  | [] => 0
  | t :: ts =>
    let count := countCommas (openAfter opened t.kind) ts
    if opened = [] ∧ t.kind = .comma then count + 1 else count

theorem length_cutAtCommas (opened : List Opener) (ts : List Token) :
    (cutAtCommas opened ts).length = countCommas opened ts + 1 := by
  induction ts generalizing opened with
  | nil => rfl
  | cons t ts ih =>
    simp only [cutAtCommas, countCommas]
    split
    · rw [List.length_cons, ih]
    · rw [List.length_modifyHead, ih]

def StaysWhole (opened : List Opener) (ts : List Token) : Prop :=
  ∀ us, cutAtCommas opened (ts ++ us) = (cutAtCommas opened us).modifyHead (ts ++ ·)

namespace StaysWhole

variable {opened : List Opener} {ts us : List Token} {t o c : Token}

theorem nil : StaysWhole opened [] := by
  intro us
  cases h : cutAtCommas opened us <;> simp [h]

theorem append (h : StaysWhole opened ts) (h' : StaysWhole opened us) :
    StaysWhole opened (ts ++ us) := by
  intro vs
  rw [List.append_assoc, h, h', List.modifyHead_modifyHead]
  simp [Function.comp_def]

theorem cons_of_isFlat (ht : t.kind.isFlat = true) (hcomma : opened = [] → t.kind ≠ .comma)
    (h : StaysWhole opened ts) : StaysWhole opened (t :: ts) := by
  intro us
  rw [List.cons_append, cutAtCommas, openAfter_of_isFlat ht, if_neg fun hc => hcomma hc.1 hc.2, h,
    List.modifyHead_modifyHead]
  rfl

theorem enclosed (opener : Opener) (ho : o.kind.opens? = some opener) (hc : c.kind = opener.closer)
    (h : StaysWhole (opener :: opened) ts) : StaysWhole opened (o :: (ts ++ [c])) := by
  intro us
  have hopen : openAfter opened o.kind = opener :: opened := by rw [openAfter, ho]
  have hclose : openAfter (opener :: opened) c.kind = opened := by rw [hc, openAfter_closer]; rfl
  have hcomma : o.kind ≠ .comma := by
    intro hk
    rw [hk] at ho
    contradiction
  rw [List.cons_append, List.append_assoc, cutAtCommas, hopen, if_neg fun hk => hcomma hk.2, h,
    List.singleton_append, cutAtCommas, hclose, if_neg (by simp), List.modifyHead_modifyHead,
    List.modifyHead_modifyHead]
  simp [Function.comp_def]

end StaysWhole

theorem staysWhole_of_denotes {ts : List Token} {d : Denotation} (h : Denotes ts d)
    {opened : List Opener} (ho : opened ≠ [] ∨ ∃ e, d = .expression e) : StaysWhole opened ts := by
  induction h generalizing opened with
  | identifier ht =>
    exact .cons_of_isFlat (by rw [ht]; rfl) (fun _ => by rw [ht]; simp) .nil
  | literal ht hv =>
    refine .cons_of_isFlat (TokenKind.isFlat_of_isLiteral ht) (fun _ hk => ?_) .nil
    rw [hk] at ht
    contradiction
  | call hk hc h ih =>
    exact .enclosed .call (by rw [hk]; rfl) hc (ih (.inl (List.cons_ne_nil _ _)))
  | array hk hc h ih =>
    exact .enclosed .bracket (by rw [hk]; rfl) hc (ih (.inl (List.cons_ne_nil _ _)))
  | object hk hc h ih =>
    exact .enclosed .brace (by rw [hk]; rfl) hc (ih (.inl (List.cons_ne_nil _ _)))
  | template hk hc h ih =>
    exact .enclosed .template (by rw [hk]; rfl) hc (ih (.inl (List.cons_ne_nil _ _)))
  | noItems | noProperties | noParts => exact .nil
  | comma ht h ih | separator ht h ih =>
    have hopened := ho.resolve_right (by simp)
    exact .cons_of_isFlat (by rw [ht]; rfl) (fun hn => absurd hn hopened) (ih (.inl hopened))
  | item he h ihe ih =>
    exact (ihe (.inr ⟨_, rfl⟩)).append (ih (.inl (ho.resolve_right (by simp))))
  | property ht he h ihe ih =>
    exact .cons_of_isFlat (by rw [ht]; rfl) (fun _ => by rw [ht]; simp)
      ((ihe (.inr ⟨_, rfl⟩)).append (ih (.inl (ho.resolve_right (by simp)))))
  | text ht h ih =>
    exact .cons_of_isFlat (by rw [ht]; rfl) (fun _ => by rw [ht]; simp)
      (ih (.inl (ho.resolve_right (by simp))))
  | @interpolation o c ts us e es hk hc he h ihe ih =>
    have hus := ih (.inl (ho.resolve_right (by simp)))
    have hwhole : StaysWhole opened (o :: (ts ++ [c])) :=
      .enclosed .interpolation (by rw [hk]; rfl) hc (ihe (.inr ⟨_, rfl⟩))
    simpa using hwhole.append hus

def ReadInOrder (ts : List Token) (es : List Expr) : Prop :=
  ∃ pieces : List (List Token), pieces.flatten = ts ∧ List.Forall₂ Expr.IsReadFrom es pieces

namespace ReadInOrder

variable {ts us : List Token} {e : Expr} {es : List Expr}

theorem nil : ReadInOrder [] [] := ⟨[], rfl, .nil⟩

theorem cons (he : e.IsReadFrom ts) (h : ReadInOrder us es) : ReadInOrder (ts ++ us) (e :: es) := by
  obtain ⟨pieces, rfl, hpieces⟩ := h
  exact ⟨ts :: pieces, rfl, .cons he hpieces⟩

theorem denotes (h : ReadInOrder ts es) : Denotes ts (.items es []) := by
  obtain ⟨pieces, rfl, hpieces⟩ := h
  induction hpieces with
  | nil => exact .noItems
  | cons he _ ih => exact .item (isReadFrom_iff_denotes.1 he) ih

theorem rightUnique : Relator.RightUnique ReadInOrder := by
  intro ts es ds h h'
  have hslots (l : List Expr) : ListEnd.opened.resume [] l [] = l := ListEnd.resume_opened l []
  obtain ⟨items, last, hr, hitems⟩ :=
    Assembly.readsAs_of_denotes h.denotes .start (.array 0) [] .opened
  obtain ⟨items', last', hr', hitems'⟩ :=
    Assembly.readsAs_of_denotes h'.denotes .start (.array 0) [] .opened
  rw [hr] at hr'
  cases hr'
  rw [← hslots es, ← hitems, hitems', hslots]

end ReadInOrder

theorem readInOrder_of_denotes {ts : List Token} {segment : List Expr} {segments : List (List Expr)}
    (h : Denotes ts (.items segment segments)) :
    List.Forall₂ ReadInOrder (cutAtCommas [] ts) (segment :: segments) := by
  generalize hd : Denotation.items segment segments = d at h
  induction h generalizing segment segments with
  | noItems =>
    cases hd
    exact .cons .nil .nil
  | comma ht h ih =>
    cases hd
    rw [cutAtCommas, if_pos ⟨rfl, ht⟩, ht]
    exact .cons .nil (ih rfl)
  | item he h _ ih =>
    cases hd
    obtain ⟨first, rest, hfirst, hrest, hcut⟩ := List.forall₂_cons_right_iff.1 (ih rfl)
    rw [staysWhole_of_denotes he (.inr ⟨_, rfl⟩), hcut]
    exact .cons (hfirst.cons (isReadFrom_iff_denotes.2 he)) hrest
  | _ => contradiction

theorem exists_items_of_isReadFrom {o c : Token} {body : List Token} {e : Expr}
    (ho : o.kind = .functionCall ∨ o.kind = .bracketStart)
    (h : e.IsReadFrom (o :: (body ++ [c]))) :
    ∃ segment segments, Denotes body (.items segment segments) := by
  generalize hts : o :: (body ++ [c]) = ts at h
  cases isReadFrom_iff_denotes.1 h with
  | call hk hc hd | array hk hc hd =>
    obtain ⟨rfl, hbody⟩ := List.cons.inj hts
    obtain ⟨rfl, -⟩ := List.append_inj' hbody rfl
    exact ⟨_, _, hd⟩
  | identifier hk | literal hk => simp at hts
  | object hk | template hk =>
    obtain ⟨rfl, -⟩ := List.cons.inj hts
    simp [hk] at ho

theorem length_filled {segment : List Expr} (h : segment.length ≤ 1) :
    (filled segment).length = 1 := by
  cases segment with
  | nil => rfl
  | cons e es => simpa [filled] using h

theorem length_slots {segments : List (List Expr)} (hcommas : 2 ≤ segments.length)
    (h : ∀ segment ∈ segments, segment.length ≤ 1) : (slots segments).length = segments.length := by
  have hone : ∀ segment ∈ segments, (filled segment).length = 1 :=
    fun segment hs => length_filled (h segment hs)
  have hslots : slots segments = segments.flatMap filled := by
    unfold slots
    split
    · simp at hcommas
    · rfl
  rw [hslots, List.length_flatMap, List.map_congr_left hone]
  simp

/-- Items that are left out, in calls and arrays alike. If a body can be read between the tokens of
either, then its own commas cut it into segments that are each read as some expressions in a row. It
is read in both, wherever an expression is awaited, and the items are those of its one segment if it
has no comma, else those of all segments with an undefined item for each segment without one. So if
no two items stand next to each other, a body with commas has one item more than commas. -/
theorem items_of_list_body {o c p d : Token} {body : List Token} (ho : o.kind = .functionCall)
    (hc : c.kind = .parenEnd) (hp : p.kind = .bracketStart) (hd : d.kind = .bracketEnd)
    (h : (∃ e : Expr, e.IsReadFrom (o :: (body ++ [c]))) ∨
      ∃ e : Expr, e.IsReadFrom (p :: (body ++ [d]))) :
    (∃ segments, List.Forall₂ ReadInOrder (cutAtCommas [] body) segments) ∧
    ∀ segments, List.Forall₂ ReadInOrder (cutAtCommas [] body) segments →
      segments.length = countCommas [] body + 1 ∧
      (∀ s : Assembly, s.Awaits →
        s.run (o :: (body ++ [c])) = .ok (s.deliver (.call o.value (slots segments))) ∧
        s.run (p :: (body ++ [d])) = .ok (s.deliver (.array (slots segments)))) ∧
      (1 ≤ countCommas [] body → (∀ segment ∈ segments, segment.length ≤ 1) →
        (slots segments).length = countCommas [] body + 1) := by
  obtain ⟨segment, segments, hitems⟩ : ∃ segment segments, Denotes body (.items segment segments) := by
    rcases h with ⟨e, he⟩ | ⟨e, he⟩
    · exact exists_items_of_isReadFrom (.inl ho) he
    · exact exists_items_of_isReadFrom (.inr hp) he
  have hread := readInOrder_of_denotes hitems
  refine ⟨⟨_, hread⟩, fun others hothers => ?_⟩
  obtain rfl : segment :: segments = others :=
    List.right_unique_forall₂' ReadInOrder.rightUnique hread hothers
  have hlength : (segment :: segments).length = countCommas [] body + 1 := by
    rw [← hread.length_eq, length_cutAtCommas]
  refine ⟨hlength, fun s hs => ?_, fun hcommas hone => ?_⟩
  · exact ⟨run_of_denotes (.call ho hc hitems) hs, run_of_denotes (.array hp hd hitems) hs⟩
  · rw [length_slots (by omega) hone, hlength]

theorem items_of_list_body_nested :
    let body : List Token := [⟨.comma, ",", 2⟩, ⟨.identifier, "a", 3⟩, ⟨.comma, ",", 4⟩,
      ⟨.bracketStart, "[", 5⟩, ⟨.identifier, "b", 6⟩, ⟨.comma, ",", 7⟩, ⟨.bracketEnd, "]", 8⟩,
      ⟨.comma, ",", 9⟩]
    let items : List Expr :=
      [.elided, .identifier "a", .array [.identifier "b", .elided], .elided]
    items.length = countCommas [] body + 1 ∧
    (Expr.call "f" items).IsReadFrom
      (⟨.functionCall, "f", 0⟩ :: (body ++ [⟨.parenEnd, ")", 10⟩])) ∧
    (Expr.array items).IsReadFrom
      (⟨.bracketStart, "[", 0⟩ :: (body ++ [⟨.bracketEnd, "]", 10⟩])) := by
  intro body items
  have hcut : cutAtCommas [] body =
      [[], [⟨.identifier, "a", 3⟩], [⟨.bracketStart, "[", 5⟩, ⟨.identifier, "b", 6⟩,
        ⟨.comma, ",", 7⟩, ⟨.bracketEnd, "]", 8⟩], []] := by decide
  have hread : List.Forall₂ ReadInOrder (cutAtCommas [] body)
      [[], [.identifier "a"], [.array [.identifier "b", .elided]], []] := by
    rw [hcut]
    exact .cons .nil (.cons ⟨[[⟨.identifier, "a", 3⟩]], rfl, .cons rfl .nil⟩
      (.cons ⟨[_], List.append_nil _, .cons rfl .nil⟩ (.cons .nil .nil)))
  have hcall : (Expr.call "f" items).IsReadFrom
      (⟨.functionCall, "f", 0⟩ :: (body ++ [⟨.parenEnd, ")", 10⟩])) := rfl
  obtain ⟨-, hruns, hcount⟩ := (items_of_list_body (p := ⟨.bracketStart, "[", 0⟩)
    (d := ⟨.bracketEnd, "]", 10⟩) rfl rfl rfl rfl (.inl ⟨_, hcall⟩)).2 _ hread
  exact ⟨hcount (by decide) (by simp), hruns _ (Assembly.awaits_interpolation _ _)⟩

end MessageCatalog
