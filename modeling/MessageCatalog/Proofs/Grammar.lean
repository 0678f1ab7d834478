import MessageCatalog.Proofs.Assembling

/-!
# The grammar of phrases

Which lists of tokens are phrases, said by a grammar on the kinds of tokens alone: commas stand
anywhere among items and properties, and a closing brace outside of interpolations is dropped.
Tokens are a phrase exactly if the grammar derives their kinds. The proof follows the tokens one by
one: what may still come while some constructs are open is a language of its own, and reading a
token takes that token off the front of this language.
-/
namespace MessageCatalog

inductive Category where
  | phrase | expression | items | properties | parts

inductive Derives : Category → List TokenKind → Prop where
  | phraseEmpty : Derives .phrase []
  | phraseText {ks : List TokenKind} : Derives .phrase ks → Derives .phrase (.string :: ks)
  | phraseInterpolation {es ks : List TokenKind} : Derives .expression es → Derives .phrase ks →
      Derives .phrase (.expressionStart :: (es ++ .expressionEnd :: ks))
  | phraseStrayEnd {ks : List TokenKind} :
      Derives .phrase ks → Derives .phrase (.expressionEnd :: ks)
  | phraseStrayBrace {ks : List TokenKind} : Derives .phrase ks → Derives .phrase (.braceEnd :: ks)
  | identifier : Derives .expression [.identifier]
  | literal {k : TokenKind} :
      k ∈ [.string, .number, .boolean, .null, .undefined] → Derives .expression [k]
  | call {ks : List TokenKind} :
      Derives .items ks → Derives .expression (.functionCall :: (ks ++ [.parenEnd]))
  | array {ks : List TokenKind} :
      Derives .items ks → Derives .expression (.bracketStart :: (ks ++ [.bracketEnd]))
  | object {ks : List TokenKind} :
      Derives .properties ks → Derives .expression (.braceStart :: (ks ++ [.braceEnd]))
  | template {ks : List TokenKind} :
      Derives .parts ks → Derives .expression (.templateStart :: (ks ++ [.templateEnd]))
  | itemsEmpty : Derives .items []
  | itemsComma {ks : List TokenKind} : Derives .items ks → Derives .items (.comma :: ks)
  | item {es ks : List TokenKind} :
      Derives .expression es → Derives .items ks → Derives .items (es ++ ks)
  | propertiesEmpty : Derives .properties []
  | propertiesComma {ks : List TokenKind} :
      Derives .properties ks → Derives .properties (.comma :: ks)
  | property {es ks : List TokenKind} : Derives .expression es → Derives .properties ks →
      Derives .properties (.propertyName :: (es ++ ks))
  | partsEmpty : Derives .parts []
  | partsText {ks : List TokenKind} : Derives .parts ks → Derives .parts (.string :: ks)
  | partsInterpolation {es ks : List TokenKind} : Derives .expression es → Derives .parts ks →
      Derives .parts (.expressionStart :: (es ++ .expressionEnd :: ks))

def ExpressionThen (rest : List TokenKind → Prop) (ks : List TokenKind) : Prop :=
  ∃ es ls, ks = es ++ ls ∧ Derives .expression es ∧ rest ls

def Until (category : Category) (closer : TokenKind) (rest : List TokenKind → Prop)
    (ks : List TokenKind) : Prop :=
  ∃ is ls, ks = is ++ closer :: ls ∧ Derives category is ∧ rest ls

/-- The kinds of tokens that complete a phrase when the innermost of some open constructs has just
been handed an expression. -/
def CompletesAfter : List Construct → List TokenKind → Prop
  | [], ks => Derives .phrase ks
  | .interpolation .. :: below, ks => ∃ ls, ks = .expressionEnd :: ls ∧ CompletesAfter below ls
  | .call .. :: below, ks => Until .items .parenEnd (CompletesAfter below) ks
  | .array .. :: below, ks => Until .items .bracketEnd (CompletesAfter below) ks
  | .object .. :: below, ks => Until .properties .braceEnd (CompletesAfter below) ks
  | .template .. :: below, ks => Until .parts .templateEnd (CompletesAfter below) ks

/-- The kinds of tokens that complete a phrase with some constructs open. -/
def Completes : List Construct → List TokenKind → Prop
  | .interpolation p none :: below => ExpressionThen (CompletesAfter (.interpolation p none :: below))
  | .object p ps (some key) :: below =>
    ExpressionThen (CompletesAfter (.object p ps (some key) :: below))
  | stack => CompletesAfter stack

theorem not_completesAfter_nil (c : Construct) (below : List Construct) :
    ¬ CompletesAfter (c :: below) [] := by
  cases c <;> simp [CompletesAfter, Until]

theorem not_expressionThen_nil (c : Construct) (below : List Construct) :
    ¬ ExpressionThen (CompletesAfter (c :: below)) [] := by
  rintro ⟨es, ls, he, -, hl⟩
  obtain ⟨-, rfl⟩ := List.nil_eq_append_iff.1 he
  exact not_completesAfter_nil c below hl

theorem completes_nil_iff {stack : List Construct} : Completes stack [] ↔ stack = [] := by
  constructor
  · intro h
    cases stack with
    | nil => rfl
    | cons c below =>
      refine absurd h ?_
      cases c with
      | interpolation p e =>
        cases e with
        | none => exact not_expressionThen_nil _ _
        | some e => exact not_completesAfter_nil _ _
      | object p ps key =>
        cases key with
        | none => exact not_completesAfter_nil _ _
        | some key => exact not_expressionThen_nil _ _
      | call | array | template => exact not_completesAfter_nil _ _
  · rintro rfl
    exact .phraseEmpty

section FirstToken

variable {k closer : TokenKind} {ks : List TokenKind} {rest : List TokenKind → Prop}

theorem phrase_cons_iff : Derives .phrase (k :: ks) ↔
    k = .string ∧ Derives .phrase ks ∨
    k = .expressionStart ∧
      ExpressionThen (fun ls => ∃ ms, ls = .expressionEnd :: ms ∧ Derives .phrase ms) ks ∨
    (k = .expressionEnd ∨ k = .braceEnd) ∧ Derives .phrase ks := by
  constructor
  · intro h
    cases h with
    | phraseText h => exact .inl ⟨rfl, h⟩
    | phraseInterpolation he h => exact .inr (.inl ⟨rfl, _, _, rfl, he, _, rfl, h⟩)
    | phraseStrayEnd h => exact .inr (.inr ⟨.inl rfl, h⟩)
    | phraseStrayBrace h => exact .inr (.inr ⟨.inr rfl, h⟩)
  · rintro (⟨rfl, h⟩ | ⟨rfl, es, _, rfl, he, ls, rfl, h⟩ | ⟨rfl | rfl, h⟩)
    · exact .phraseText h
    · exact .phraseInterpolation he h
    · exact .phraseStrayEnd h
    · exact .phraseStrayBrace h

theorem until_items_cons_iff : Until .items closer rest (k :: ks) ↔
    k = closer ∧ rest ks ∨ k = .comma ∧ Until .items closer rest ks ∨
    ExpressionThen (Until .items closer rest) (k :: ks) := by
  constructor
  · rintro ⟨is, ls, hks, hi, hl⟩
    cases hi with
    | itemsEmpty =>
      cases hks
      exact .inl ⟨rfl, hl⟩
    | itemsComma hi =>
      cases hks
      exact .inr (.inl ⟨rfl, _, ls, rfl, hi, hl⟩)
    | item he hi =>
      rw [List.append_assoc] at hks
      exact .inr (.inr ⟨_, _, hks, he, _, ls, rfl, hi, hl⟩)
  · rintro (⟨rfl, h⟩ | ⟨rfl, is, ls, rfl, hi, hl⟩ | ⟨es, _, hks, he, is, ls, rfl, hi, hl⟩)
    · exact ⟨[], ks, rfl, .itemsEmpty, h⟩
    · exact ⟨.comma :: is, ls, rfl, .itemsComma hi, hl⟩
    · exact ⟨es ++ is, ls, by rw [hks, List.append_assoc], .item he hi, hl⟩

theorem until_properties_cons_iff : Until .properties closer rest (k :: ks) ↔
    k = closer ∧ rest ks ∨ k = .comma ∧ Until .properties closer rest ks ∨
    k = .propertyName ∧ ExpressionThen (Until .properties closer rest) ks := by
  constructor
  · rintro ⟨ps, ls, hks, hp, hl⟩
    cases hp with
    | propertiesEmpty =>
      cases hks
      exact .inl ⟨rfl, hl⟩
    | propertiesComma hp =>
      cases hks
      exact .inr (.inl ⟨rfl, _, ls, rfl, hp, hl⟩)
    | property he hp =>
      cases hks
      exact .inr (.inr ⟨rfl, _, _, List.append_assoc .., he, _, ls, rfl, hp, hl⟩)
  · rintro (⟨rfl, h⟩ | ⟨rfl, ps, ls, rfl, hp, hl⟩ | ⟨rfl, es, _, rfl, he, ps, ls, rfl, hp, hl⟩)
    · exact ⟨[], ks, rfl, .propertiesEmpty, h⟩
    · exact ⟨.comma :: ps, ls, rfl, .propertiesComma hp, hl⟩
    · exact ⟨.propertyName :: (es ++ ps), ls, by simp, .property he hp, hl⟩

theorem until_parts_cons_iff : Until .parts closer rest (k :: ks) ↔
    k = closer ∧ rest ks ∨ k = .string ∧ Until .parts closer rest ks ∨
    k = .expressionStart ∧
      ExpressionThen (fun ls => ∃ ms, ls = .expressionEnd :: ms ∧ Until .parts closer rest ms)
        ks := by
  constructor
  · rintro ⟨ps, ls, hks, hp, hl⟩
    cases hp with
    | partsEmpty =>
      cases hks
      exact .inl ⟨rfl, hl⟩
    | partsText hp =>
      cases hks
      exact .inr (.inl ⟨rfl, _, ls, rfl, hp, hl⟩)
    | partsInterpolation he hp =>
      cases hks
      exact .inr (.inr ⟨rfl, _, _, by simp, he, _, rfl, _, ls, rfl, hp, hl⟩)
  · rintro (⟨rfl, h⟩ | ⟨rfl, ps, ls, rfl, hp, hl⟩ |
      ⟨rfl, es, _, rfl, he, _, rfl, ps, ls, rfl, hp, hl⟩)
    · exact ⟨[], ks, rfl, .partsEmpty, h⟩
    · exact ⟨.string :: ps, ls, rfl, .partsText hp, hl⟩
    · exact ⟨.expressionStart :: (es ++ .expressionEnd :: ps), ls, by simp,
        .partsInterpolation he hp, hl⟩

end FirstToken

namespace Assembly

variable {s s' : Assembly} {t : Token} {ks : List TokenKind}

theorem completes_deliver {e : Expr} :
    Completes (s.deliver e).stack ks ↔ CompletesAfter s.stack ks := by
  unfold deliver
  split <;> simp_all [update, Completes, CompletesAfter]

theorem completes_close {e : Expr} :
    Completes (s.close e).stack ks ↔ CompletesAfter s.stack.tail ks := by
  rw [close, completes_deliver]

def Converts (t : Token) : Prop := t.kind = .number → (numberValue? t.value).isSome = true

theorem literalValue_of_converts (h : Converts t) : ∃ v, literalValue t = .ok v := by
  cases hv : literalValue t with
  | ok v => exact ⟨v, rfl⟩
  | error e =>
    obtain ⟨hk, hn, -⟩ := literalValue_error hv
    have hs := h hk
    simp [hn] at hs

theorem expressionThen_cons_iff (hc : Converts t) :
    ExpressionThen (CompletesAfter s.stack) (t.kind :: ks) ↔
      ∃ s', s.expression t = .ok s' ∧ Completes s'.stack ks := by
  constructor
  · rintro ⟨es, ls, hks, he, hl⟩
    cases he with
    | identifier =>
      simp only [List.singleton_append, List.cons.injEq] at hks
      obtain ⟨hk, rfl⟩ := hks
      exact ⟨s.deliver (.identifier t.value), by simp [expression, hk], completes_deliver.2 hl⟩
    | literal hlit =>
      simp only [List.singleton_append, List.cons.injEq] at hks
      obtain ⟨rfl, rfl⟩ := hks
      obtain ⟨v, hv⟩ := literalValue_of_converts hc
      refine ⟨s.deliver (.literal v), ?_, completes_deliver.2 hl⟩
      simp only [List.mem_cons, List.not_mem_nil, or_false] at hlit
      rcases hlit with hk | hk | hk | hk | hk <;>
        simp [expression, hk, TokenKind.isLiteral, hv, Except.map]
    | call hi | array hi | object hi | template hi =>
      simp only [List.cons_append, List.append_assoc, List.nil_append, List.cons.injEq] at hks
      obtain ⟨hk, rfl⟩ := hks
      simp only [expression, hk]
      exact ⟨_, rfl, _, _, rfl, hi, hl⟩
  · rintro ⟨s', he, hs'⟩
    unfold expression at he
    split at he
    case h_6 =>
      split at he
      · next hlit =>
        obtain ⟨v, hv⟩ := literalValue_of_converts hc
        rw [hv] at he
        cases he
        refine ⟨[t.kind], ks, rfl, .literal ?_, completes_deliver.1 hs'⟩
        cases hk : t.kind <;> simp_all [TokenKind.isLiteral]
      · contradiction
    case h_1 hk =>
      cases he
      exact ⟨[t.kind], ks, rfl, hk ▸ .identifier, completes_deliver.1 hs'⟩
    all_goals
      rename_i hk
      cases he
      obtain ⟨is, ls, rfl, hi, hl⟩ := hs'
      rw [hk]
    · exact ⟨_, ls, by simp, .call hi, hl⟩
    · exact ⟨_, ls, by simp, .array hi, hl⟩
    · exact ⟨_, ls, by simp, .object hi, hl⟩
    · exact ⟨_, ls, by simp, .template hi, hl⟩

private theorem exists_ok_iff {a : Assembly} {P : Assembly → Prop} :
    (∃ s', (Except.ok a : Except ParseError Assembly) = .ok s' ∧ P s') ↔ P a := by
  simp

theorem not_exists_unexpected {P : Assembly → Prop} : ¬ ∃ s', unexpected t = .ok s' ∧ P s' := by
  simp [unexpected, fail]

theorem expression_eq_unexpected (hk : t.kind = .comma ∨ t.kind.closes = true) :
    s.expression t = unexpected t := by
  unfold expression
  rcases hk with hk | hk
  · simp [hk, TokenKind.isLiteral]
  · cases ht : t.kind <;> simp_all [TokenKind.closes, TokenKind.isLiteral]

theorem completesAfter_items (l : ItemList) (items : List Expr) (last : ListEnd)
    (below : List Construct) :
    CompletesAfter (l.construct items last :: below) =
      Until .items l.closer (CompletesAfter below) := by
  cases l <;> rfl

theorem completes_items (l : ItemList) (items : List Expr) (last : ListEnd)
    (below : List Construct) :
    Completes (l.construct items last :: below) = Until .items l.closer (CompletesAfter below) := by
  cases l <;> rfl

theorem completes_items_cons_iff (l : ItemList) {items : List Expr} {last : ListEnd}
    {below : List Construct} (hc : Converts t) (hs : s.stack = l.construct items last :: below) :
    Completes s.stack (t.kind :: ks) ↔ ∃ s', s.step t = .ok s' ∧ Completes s'.stack ks := by
  have he := @expressionThen_cons_iff s t ks hc
  rw [hs, completesAfter_items] at he
  rw [hs, completes_items, until_items_cons_iff, he, step_items l hs]
  have hclose : l.closer.closes = true ∧ l.closer ≠ .comma := by
    cases l <;> simp [ItemList.closer, TokenKind.closes]
  split
  · next hk =>
    rw [expression_eq_unexpected (.inl hk), exists_ok_iff]
    simp [hk, hclose.2.symm, not_exists_unexpected, update, hs, completes_items]
  · next hk =>
    split
    · next hk' =>
      rw [expression_eq_unexpected (.inr (hk' ▸ hclose.1)), exists_ok_iff, completes_close, hs]
      simp [hk', hclose.2, not_exists_unexpected]
    · next hk' => simp [hk, hk']

theorem completes_top_cons_iff (hs : s.stack = []) :
    Completes s.stack (t.kind :: ks) ↔ ∃ s', s.step t = .ok s' ∧ Completes s'.stack ks := by
  have hphrase : ∀ ls, Completes [] ls = Derives .phrase ls := fun _ => rfl
  simp only [step, hs, textOr, hphrase]
  rw [phrase_cons_iff]
  split
  · next hk =>
    rw [exists_ok_iff, completes_deliver, hs]
    simp [hk, CompletesAfter]
  · next hk =>
    rw [exists_ok_iff, stack_push, hs]
    simp [hk, Completes, CompletesAfter]
  · next hk hk' =>
    split
    · next hk => simp [hk, hs, hphrase]
    · next hk => simp [hk, hs, hphrase]
    · next hk₁ hk₂ =>
      refine iff_of_false ?_ not_exists_unexpected
      rintro (⟨h, -⟩ | ⟨h, -⟩ | ⟨h | h, -⟩)
      · exact hk h
      · exact hk' h
      · exact hk₁ h
      · exact hk₂ h

theorem completes_filled_cons_iff {p : Nat} {e : Expr} {below : List Construct}
    (hs : s.stack = .interpolation p (some e) :: below) :
    Completes s.stack (t.kind :: ks) ↔ ∃ s', s.step t = .ok s' ∧ Completes s'.stack ks := by
  have hfilled : Completes s.stack (t.kind :: ks) ↔
      t.kind = .expressionEnd ∧ CompletesAfter below ks := by
    rw [hs]
    constructor
    · rintro ⟨ls, hls, h⟩
      obtain ⟨hk, rfl⟩ := List.cons.inj hls
      exact ⟨hk, h⟩
    · rintro ⟨hk, h⟩
      exact ⟨ks, by rw [hk], h⟩
  rw [hfilled]
  simp only [step, hs]
  split
  · next hk =>
    rw [exists_ok_iff, completes_close, hs]
    simp [hk]
  · next hk => split <;> simp [hk, fail, unexpected]
  · next hk _ => exact iff_of_false (fun h => hk h.1) not_exists_unexpected

theorem completes_properties_cons_iff {p : Nat} {ps : List (String × Expr)}
    {below : List Construct} (hs : s.stack = .object p ps none :: below) :
    Completes s.stack (t.kind :: ks) ↔ ∃ s', s.step t = .ok s' ∧ Completes s'.stack ks := by
  have hproperties : ∀ ls, Completes s.stack ls =
      Until .properties .braceEnd (CompletesAfter below) ls := fun _ => by rw [hs]; rfl
  rw [hproperties, until_properties_cons_iff]
  simp only [step, hs]
  split
  · next hk => simp [hk, hproperties]
  · next hk =>
    rw [exists_ok_iff, completes_close, hs]
    simp [hk]
  · next hk => simp [hk, fail]
  · next hk =>
    rw [exists_ok_iff]
    simp [hk, update, hs, Completes, CompletesAfter]
  · next hk₁ hk₂ _ hk₃ =>
    refine iff_of_false ?_ not_exists_unexpected
    rintro (⟨h, -⟩ | ⟨h, -⟩ | ⟨h, -⟩)
    · exact hk₂ h
    · exact hk₁ h
    · exact hk₃ h

theorem completes_parts_cons_iff {p : Nat} {ps : List Expr} {below : List Construct}
    (hs : s.stack = .template p ps :: below) :
    Completes s.stack (t.kind :: ks) ↔ ∃ s', s.step t = .ok s' ∧ Completes s'.stack ks := by
  have hparts : Completes s.stack (t.kind :: ks) =
      Until .parts .templateEnd (CompletesAfter below) (t.kind :: ks) := by rw [hs]; rfl
  rw [hparts, until_parts_cons_iff]
  simp only [step, hs, textOr]
  split
  · next hk =>
    rw [exists_ok_iff, completes_deliver, hs]
    simp [hk, CompletesAfter]
  · next hk =>
    rw [exists_ok_iff, stack_push, hs]
    simp [hk, Completes, CompletesAfter]
  · next hk hk' =>
    split
    · next hk'' =>
      rw [exists_ok_iff, completes_close, hs]
      simp [hk'']
    · next hk'' =>
      refine iff_of_false ?_ not_exists_unexpected
      rintro (⟨h, -⟩ | ⟨h, -⟩ | ⟨h, -⟩)
      · exact hk'' h
      · exact hk h
      · exact hk' h

theorem completes_cons_iff (hc : Converts t) :
    Completes s.stack (t.kind :: ks) ↔ ∃ s', s.step t = .ok s' ∧ Completes s'.stack ks := by
  have he := @expressionThen_cons_iff s t ks hc
  cases hs : s.stack with
  | nil => exact hs ▸ completes_top_cons_iff hs
  | cons c below =>
    rw [hs] at he
    cases c with
    | interpolation p e =>
      cases e with
      | none =>
        simp only [step, hs]
        exact he
      | some e => exact hs ▸ completes_filled_cons_iff hs
    | call p f items last => exact hs ▸ completes_items_cons_iff (.call p f) hc hs
    | array p items last => exact hs ▸ completes_items_cons_iff (.array p) hc hs
    | object p ps key =>
      cases key with
      | none => exact hs ▸ completes_properties_cons_iff hs
      | some key =>
        simp only [step, hs]
        exact he
    | template p ps => exact hs ▸ completes_parts_cons_iff hs

theorem run_completes {ts : List Token} (hc : ∀ t ∈ ts, Converts t) :
    (∃ s', s.run ts = .ok s' ∧ s'.stack = []) ↔ Completes s.stack (ts.map Token.kind) := by
  induction ts generalizing s with
  | nil => simp [run, completes_nil_iff]
  | cons t ts ih =>
    rw [List.map_cons, completes_cons_iff (hc t List.mem_cons_self)]
    have hts : ∀ u ∈ ts, Converts u := fun u hu => hc u (List.mem_cons_of_mem t hu)
    cases hs : s.step t with
    | error e => simp [run, hs]
    | ok s' => simp [run_cons_ok hs, ih hts]

theorem run_error_of_converts {ts : List Token} (hc : ∀ t ∈ ts, Converts t) {e : ParseError}
    (h : s.run ts = .error e) : ∃ e', e = .syntaxError e' := by
  obtain ⟨pre, t, post, s', rfl, -, hs⟩ := exists_step_of_run_error h
  cases step_refusal hs with
  | malformed hk hn =>
    have hv := hc t (by simp) hk
    simp [hn] at hv
  | _ => exact ⟨_, rfl⟩

end Assembly

/-- Tokens whose numbers can be read are a phrase exactly if the grammar derives their kinds, and
all others are a syntax error. -/
theorem ofTokens_ok_iff_derives {ts : List Token} (hc : ∀ t ∈ ts, Assembly.Converts t) :
    ((∃ p, Phrase.ofTokens ts = .ok p) ↔ Derives .phrase (ts.map Token.kind)) ∧
      (¬ Derives .phrase (ts.map Token.kind) →
        ∃ e, Phrase.ofTokens ts = .error (.syntaxError e)) := by
  have hiff : (∃ p, Phrase.ofTokens ts = .ok p) ↔ Derives .phrase (ts.map Token.kind) := by
    by_cases hts : ts = []
    · subst hts
      exact ⟨fun _ => .phraseEmpty, fun _ => ⟨_, rfl⟩⟩
    · refine Iff.trans ?_ (Assembly.run_completes (s := .start) hc)
      constructor
      · rintro ⟨p, hp⟩
        exact ⟨_, (Phrase.ofTokens_eq_ok_iff hts).1 hp, rfl⟩
      · rintro ⟨⟨p, stack⟩, hr, rfl⟩
        exact ⟨p, (Phrase.ofTokens_eq_ok_iff hts).2 hr⟩
  refine ⟨hiff, fun hd => ?_⟩
  cases hp : Phrase.ofTokens ts with
  | ok p => exact absurd (hiff.1 ⟨p, hp⟩) hd
  | error e =>
    rcases Phrase.ofTokens_error hp with hr | ⟨-, f, -, -, rfl⟩
    · obtain ⟨e', rfl⟩ := Assembly.run_error_of_converts hc hr
      exact ⟨e', rfl⟩
    · exact ⟨f, rfl⟩

theorem ofTokens_ok_iff_derives_unscannable :
    Derives .phrase [.braceEnd, .expressionStart, .functionCall, .comma, .number, .string,
      .parenEnd, .expressionEnd] ∧ ¬ Derives .phrase [.expressionStart, .expressionEnd] ∧
    ∃ e, Phrase.ofTokens [⟨.expressionStart, "$\x7b", 0⟩, ⟨.expressionEnd, "\x7d", 2⟩] =
      .error (.syntaxError e) := by
  have haccepted := @ofTokens_ok_iff_derives [⟨.braceEnd, "\x7d", 4⟩,
    ⟨.expressionStart, "$\x7b", 4⟩, ⟨.functionCall, "f", 3⟩, ⟨.comma, ",", 9⟩,
    ⟨.number, "1.5", 9⟩, ⟨.string, "x", 2⟩, ⟨.parenEnd, ")", 1⟩, ⟨.expressionEnd, "\x7d", 0⟩]
    (by simp [Assembly.Converts]; rfl)
  have hrefused := @ofTokens_ok_iff_derives [⟨.expressionStart, "$\x7b", 0⟩,
    ⟨.expressionEnd, "\x7d", 2⟩] (by simp [Assembly.Converts])
  have hnot : ¬ Derives .phrase [.expressionStart, .expressionEnd] := fun h => by
    obtain ⟨p, hp⟩ := hrefused.1.2 h
    cases hp
  exact ⟨haccepted.1.1 ⟨_, rfl⟩, hnot, hrefused.2 hnot⟩

end MessageCatalog
