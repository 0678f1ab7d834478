import MessageCatalog.Proofs.Nesting
import MessageCatalog.Proofs.RenderedText

/-!
# Concatenated texts

A text that is a phrase ends where plain text is read, so what is read after it is read as it would
be alone. Only plain text goes on across the seam: plain text at the end of the first text and plain
text at the beginning of the second are read as one, unless a dollar sign and a brace meet there and
begin an interpolation. The parts of the concatenated text are otherwise those of the first text and
then those of the second, and so are its rendered text and the calls.
-/
namespace MessageCatalog
open Scan

/-- An interpolation begins in a concatenated text only where one begins in either text, or where
the two meet. -/
theorem not_infix_append {cs ds : List Char} (hcs : ¬ ['$', '\x7b'] <:+: cs)
    (hds : ¬ ['$', '\x7b'] <:+: ds)
    (hseam : ¬ (cs.getLast? = some '$' ∧ ds.head? = some '\x7b')) :
    ¬ ['$', '\x7b'] <:+: cs ++ ds := by
  induction cs with
  | nil => exact hds
  | cons c cs ih =>
    have hcs' : ¬ ['$', '\x7b'] <:+: cs := fun h => hcs (List.infix_cons h)
    rw [List.cons_append, List.infix_cons_iff]
    rintro (hfirst | hlater)
    · obtain ⟨rfl, hbrace⟩ := List.cons_prefix_cons.1 hfirst
      cases cs with
      | nil =>
        obtain ⟨ds', rfl⟩ := hbrace
        exact hseam ⟨rfl, rfl⟩
      | cons d cs =>
        obtain ⟨rfl, -⟩ := List.cons_prefix_cons.1 hbrace
        exact hcs ⟨[], cs, rfl⟩
    · refine ih hcs' (fun h => hseam ⟨?_, h.2⟩) hlater
      rw [List.getLast?_cons, h.1]
      rfl

section Reading

variable {position stop : Nat} {cs rest : List Char} {ts : List Token} {p : Phrase} {s : Assembly}

theorem reads_alone (he : Emits ⟨[], position, cs⟩ ts ⟨[], stop, []⟩)
    (hr : Assembly.start.run ts = .ok ⟨p, []⟩) (hs : s.AtText) :
    ReadsTo [] cs s [] [] (p.foldl Assembly.deliver s) := by
  have h := reads_nested he hr readsText_nil (by simp) (fun _ _ => .inl rfl) hs
  rwa [List.append_nil, List.append_nil] at h

theorem reads_plain (hcs : ¬ ['$', '\x7b'] <:+: cs) (hr : EndsText false rest) (hs : s.AtText) :
    ReadsTo [] (cs ++ rest) s [] rest ((Phrase.plain cs).foldl Assembly.deliver s) := by
  cases cs with
  | nil => exact .refl _ _ _
  | cons c cs =>
    have hplain : IsPlain false (c :: cs) := ⟨by simp, hcs, by simp⟩
    exact .lexeme (textLexeme_plain hplain hr) (fun _ => hs.step_string rfl) fun _ => .refl _ _ _

theorem plain_toList {s : String} (h : s.toList ≠ []) : Phrase.plain s.toList = [.text s] := by
  simp [Phrase.plain, h]

end Reading

section Ends

variable {σ τ : State} {position stop : Nat} {rest : List Char} {t : Token} {ts : List Token}
  {text : String} {p : Phrase}

theorem exists_emits_before_text (he : Emits σ (ts ++ [t]) ⟨[], stop, []⟩) (hk : t.kind = .string) :
    ∃ position, Emits σ ts ⟨[], position, t.value.toList⟩ ∧ IsPlain false t.value.toList := by
  obtain ⟨⟨opened, position, cs⟩, hts, hlast⟩ := he.split
  have hopened : opened = [] := by
    have h : [] = openAfter opened t.kind := hlast.opened_eq
    rw [hk] at h
    exact h.symm
  subst hopened
  cases hlast with
  | next hn hstay =>
    cases hstay.eq_of_nil
    obtain ⟨hcs, hplain, -, -⟩ := State.endsText_of_next hn rfl hk
    have hcs : cs = t.value.toList := hcs.trans (List.append_nil _)
    exact ⟨position, hcs ▸ hts, hplain⟩

theorem exists_run_before_text (he : Emits σ ts ⟨[], position, rest⟩) (ho : σ.opened = [])
    (hr : Assembly.start.run (ts ++ [t]) = .ok ⟨p, []⟩) (hk : t.kind = .string) :
    ∃ q, Assembly.start.run ts = .ok ⟨q, []⟩ ∧ p = q ++ [.text t.value] := by
  obtain ⟨⟨q, stack⟩, hts, hlast⟩ := Assembly.exists_run_of_append hr
  have hstack : stack = [] := by
    have hopeners := Assembly.run_openers hts
    have hopened := he.opened_eq
    rw [ho] at hopened
    exact List.map_eq_nil_iff.1 (hopeners.trans hopened.symm)
  subst hstack
  have hstep : Assembly.step ⟨q, []⟩ t = .ok ⟨q ++ [.text t.value], []⟩ :=
    Assembly.AtText.step_string (.inl rfl) hk
  rw [Assembly.run_cons_ok hstep] at hlast
  cases hlast
  exact ⟨q, hts, rfl⟩

theorem exists_run_after_text (he : Emits ⟨[], position, rest⟩ ts τ)
    (hr : Assembly.start.run (t :: ts) = .ok ⟨p, []⟩) (hk : t.kind = .string) :
    ∃ q, Assembly.start.run ts = .ok ⟨q, []⟩ ∧ p = [.text t.value] ++ q := by
  have hstep : Assembly.start.step t = .ok ⟨[.text t.value], []⟩ :=
    Assembly.AtText.step_string (.inl rfl) hk
  have hbase : Assembly.AtText ⟨[.text t.value], []⟩ := .inl rfl
  rw [Assembly.run_cons_ok hstep] at hr
  obtain ⟨⟨q, stack⟩, hts, hq⟩ := Assembly.exists_run_of_onTop (s := .start) hbase he rfl hr
  have hstack : stack = [] := (List.append_eq_nil_iff.1 (congrArg Assembly.stack hq).symm).1
  subst hstack
  rw [Assembly.onTop_nil, Assembly.foldl_deliver_start] at hq
  cases hq
  exact ⟨q, hts, rfl⟩

/-- A phrase ends with plain text, be it empty, and all before it is read whatever comes after. -/
theorem Phrase.exists_plain_end (hp : parse text = .ok p) (hne : text ≠ "") :
    ∃ q cs, p = q ++ plain cs ∧ cs <:+ text.toList ∧ ¬ ['$', '\x7b'] <:+: cs ∧
      ∀ tail s, s.AtText →
        ReadsTo [] (text.toList ++ tail) s [] (cs ++ tail) (q.foldl Assembly.deliver s) := by
  obtain ⟨ts, stop, he, hr, hts⟩ := emits_of_parse hp (by simpa using hne)
  obtain ⟨ts, t, rfl⟩ : ∃ us t, ts = us ++ [t] := ⟨_, _, (List.dropLast_concat_getLast hts).symm⟩
  by_cases hk : t.kind = .string
  · obtain ⟨position, hbefore, hplain⟩ := exists_emits_before_text he hk
    obtain ⟨q, hq, rfl⟩ := exists_run_before_text hbefore rfl hr hk
    refine ⟨q, t.value.toList, ?_, hbefore.rest_suffix, hplain.noInterpolation, fun tail s hs => ?_⟩
    · rw [plain_toList hplain.nonempty]
    · exact reads_nested hbefore hq readsText_nil (by simp)
        (fun hrest => absurd hrest hplain.nonempty) hs
  · refine ⟨p, [], (List.append_nil p).symm, List.nil_suffix, by simp, fun tail s hs => ?_⟩
    refine reads_nested he hr readsText_nil (by simp) (fun _ hlast => ?_) hs
    rw [List.map_append, List.getLast?_append] at hlast
    exact absurd (Option.some.inj hlast) hk

theorem Phrase.exists_plain_start (hp : parse text = .ok p) (hne : text ≠ "") :
    ∃ cs rest q, p = plain cs ++ q ∧ text.toList = cs ++ rest ∧ ¬ ['$', '\x7b'] <:+: cs ∧
      EndsText false rest ∧
      ∀ s, s.AtText → ReadsTo [] rest s [] [] (q.foldl Assembly.deliver s) := by
  obtain ⟨ts, stop, he, hr, hts⟩ := emits_of_parse hp (by simpa using hne)
  obtain ⟨t, ts, rfl⟩ := List.exists_cons_of_ne_nil hts
  cases he with
  | @next _ τ _ _ _ hn hafter =>
    rcases next_fits hn with hk | hk
    · obtain ⟨hcs, hplain, hends, ho⟩ := State.endsText_of_next hn rfl hk
      obtain ⟨opened, position, rest⟩ := τ
      cases ho
      obtain ⟨q, hq, rfl⟩ := exists_run_after_text hafter hr hk
      refine ⟨t.value.toList, rest, q, ?_, hcs, hplain.noInterpolation, hends, fun s hs => ?_⟩
      · rw [plain_toList hplain.nonempty]
      · exact reads_alone hafter hq hs
    · have hends : EndsText false text.toList := by
        obtain ⟨l, hl, rfl, -⟩ := State.exists_lexeme_of_next hn
        exact .inr (textEnds_of_textLexeme hl hk)
      exact ⟨[], text.toList, p, rfl, rfl, by simp, hends,
        fun s hs => reads_alone (.next hn hafter) hr hs⟩

end Ends

namespace Phrase

variable {first second : String} {p q : Phrase}

theorem parse_empty : parse "" = .ok [.text ""] := by
  have hscan : Token.scan "" = .ok [] := State.tokens_of_ahead_nil (σ := .start "") rfl
  rw [parse_eq_ofTokens hscan]
  rfl

theorem exists_parse_append_of_nonempty (hp : parse first = .ok p) (hq : parse second = .ok q)
    (hfirst : first ≠ "") (hsecond : second ≠ "")
    (hseam : ¬ (first.toList.getLast? = some '$' ∧ second.toList.head? = some '\x7b')) :
    ∃ r, parse (first ++ second) = .ok r ∧ r.SameText (p ++ q) := by
  obtain ⟨p, cs, rfl, hend, hcs, hreads⟩ := exists_plain_end hp hfirst
  obtain ⟨ds, rest, q, rfl, hstart, hds, hrest, hreads'⟩ := exists_plain_start hq hsecond
  have hplain : ¬ ['$', '\x7b'] <:+: cs ++ ds := by
    refine not_infix_append hcs hds fun ⟨hdollar, hbrace⟩ => hseam ⟨?_, ?_⟩
    · obtain ⟨cs', h⟩ := hend
      rw [← h, List.getLast?_append, hdollar]
      rfl
    · rw [hstart, List.head?_append, hbrace]
      rfl
  have hwhole : ReadsTo [] (first ++ second).toList .start [] []
      ⟨p ++ (plain (cs ++ ds) ++ q), []⟩ := by
    have h := Assembly.foldl_deliver_start (p ++ (plain (cs ++ ds) ++ q)) []
    rw [List.nil_append, List.foldl_append, List.foldl_append] at h
    rw [← h, String.toList_append, hstart]
    have hat : Assembly.AtText .start := .inl rfl
    have hat' := hat.foldl_deliver p
    have hseam := reads_plain hplain hrest hat'
    rw [List.append_assoc] at hseam
    exact (hreads _ _ hat).trans (hseam.trans (hreads' _ (hat'.foldl_deliver _)))
  refine ⟨_, parse_of_readsTo_text ?_ hwhole, ?_⟩
  · simp [hfirst]
  · have hmerged : SameText (p ++ (plain (cs ++ ds) ++ q)) (p ++ ((plain cs ++ plain ds) ++ q)) :=
      .append (.refl p) (.append (sameText_plain_append cs ds) (.refl q))
    simpa only [List.append_assoc] using hmerged

theorem exists_parse_append (hp : parse first = .ok p) (hq : parse second = .ok q)
    (hseam : ¬ (first.toList.getLast? = some '$' ∧ second.toList.head? = some '\x7b')) :
    ∃ r, parse (first ++ second) = .ok r ∧ r.SameText (p ++ q) := by
  by_cases hfirst : first = ""
  · subst hfirst
    cases parse_empty.symm.trans hp
    have hsame : SameText ([.text ""] ++ q) q := .append sameText_empty (.refl q)
    exact ⟨q, by simpa using hq, hsame.symm⟩
  · by_cases hsecond : second = ""
    · subst hsecond
      cases parse_empty.symm.trans hq
      have hsame : SameText (p ++ [.text ""]) (p ++ []) := .append (.refl p) sameText_empty
      rw [List.append_nil] at hsame
      exact ⟨p, by simpa using hp, hsame.symm⟩
    · exact exists_parse_append_of_nonempty hp hq hfirst hsecond hseam

/-- Texts that are phrases make a phrase together, unless an interpolation begins where they meet.
It is evaluated as the first and then the second, and fails as the first of the two that does: the
calls come one after the other, and so do the texts. There is no text if one of the two has none. -/
theorem parse_append (hp : parse first = .ok p) (hq : parse second = .ok q)
    (hseam : ¬ (first.toList.getLast? = some '$' ∧ second.toList.head? = some '\x7b')) :
    ∃ r, parse (first ++ second) = .ok r ∧
      (∀ (σ : Type) (call : Callable → List Value → Eval σ Value) (locals : Locals),
        r.joined call locals = do
          let s ← p.joined call locals
          let t ← q.joined call locals
          return bothTexts s t) ∧
      ∀ (host : Host) (locals : Locals),
        Host.Follows (host.joined p locals) (host.joined q locals) (host.joined r locals) := by
  obtain ⟨r, hr, hsame⟩ := exists_parse_append hp hq hseam
  refine ⟨r, hr, fun σ call locals => (hsame σ call locals).trans (joined_append p q), ?_⟩
  intro host locals
  rw [Host.joined_of_sameText hsame]
  exact Host.joined_append p q locals

theorem parse_append_dollars :
    let first := "a$\x7bf('`')\x7d $"
    let second := "$ $\x7bg()\x7d\x7d"
    let p : Phrase := [.text "a", .call "f" [.text "`"], .text " $"]
    let q : Phrase := [.text "$ ", .call "g" [], .text "\x7d"]
    parse first = .ok p ∧ parse second = .ok q ∧
      ¬ (first.toList.getLast? = some '$' ∧ second.toList.head? = some '\x7b') ∧
      ∃ r, parse (first ++ second) = .ok r ∧
        ∀ (host : Host) (locals : Locals),
          Host.Follows (host.joined p locals) (host.joined q locals) (host.joined r locals) := by
  intro first second p q
  have hfirst : Emits (.start first)
      [⟨.string, "a", 0⟩, ⟨.expressionStart, "$\x7b", 1⟩, ⟨.functionCall, "f", 3⟩,
        ⟨.string, "`", 5⟩, ⟨.parenEnd, ")", 8⟩, ⟨.expressionEnd, "\x7d", 9⟩, ⟨.string, " $", 10⟩]
      ⟨[], 12, []⟩ := by decide +kernel
  have hsecond : Emits (.start second)
      [⟨.string, "$ ", 0⟩, ⟨.expressionStart, "$\x7b", 2⟩, ⟨.functionCall, "g", 4⟩,
        ⟨.parenEnd, ")", 6⟩, ⟨.expressionEnd, "\x7d", 7⟩, ⟨.string, "\x7d", 8⟩]
      ⟨[], 9, []⟩ := by decide +kernel
  have hp : parse first = .ok p := parse_of_emits hfirst rfl (by simp)
  have hq : parse second = .ok q := parse_of_emits hsecond rfl (by simp)
  have hseam : ¬ (first.toList.getLast? = some '$' ∧ second.toList.head? = some '\x7b') := by
    decide
  obtain ⟨r, hr, -, hfollows⟩ := parse_append hp hq hseam
  exact ⟨hp, hq, hseam, r, hr, hfollows⟩

end Phrase

end MessageCatalog
