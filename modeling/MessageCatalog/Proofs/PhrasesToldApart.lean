import Mathlib.Tactic.TFAE
import MessageCatalog.Proofs.MentionedNames
import MessageCatalog.Proofs.ShownLiterals

/-!
# Phrases told apart

Let every name stand for the function that puts its arguments in a dictionary. Then all literals of
a phrase show in its text, each in its use, and between them two equal phrases have the same text.
The first literals that are not alike are shown differently, so such phrases are told apart, and
equal phrases are rendered alike in every context just if their literals look alike.
-/
namespace MessageCatalog
open Scan

namespace Expr

mutual

/-- The value of an expression where every name stands for the function that puts its arguments in a
dictionary. -/
def exposed : Expr → Value
  | .literal v => v
  | .identifier _ => .function (.host ⟨"object"⟩)
  | .call _ arguments => .dict [(.str "args", .list (exposedAll arguments))]
  | .array elements => .list (exposedAll elements)
  | .object properties => .dict (exposedProperties properties)
  | .template parts => .str (Value.joinText (exposedAll parts))
  | .unknown _ => .undefined

def exposedAll : List Expr → List Value
  | [] => []
  | e :: rest => exposed e :: exposedAll rest

def exposedProperties : List (String × Expr) → List (Value × Value)
  | [] => []
  | (name, e) :: rest => (.str name, exposed e) :: exposedProperties rest

end

theorem length_exposedAll (es : List Expr) : (exposedAll es).length = es.length := by
  induction es with
  | nil => rfl
  | cons e es ih => rw [exposedAll, List.length_cons, ih, List.length_cons]

theorem length_exposedProperties (ps : List (String × Expr)) :
    (exposedProperties ps).length = ps.length := by
  induction ps with
  | nil => rfl
  | cons p ps ih => rw [exposedProperties, List.length_cons, ih, List.length_cons]

end Expr

namespace Locals

def Exposes (locals : Locals) (names : List String) : Prop :=
  ∀ name ∈ names, locals.value name = .function (.host ⟨"object"⟩)

def exposing (names : List String) : Locals := names.map (·, .function (.host ⟨"object"⟩))

theorem exposing_exposes (names : List String) : (exposing names).Exposes names := by
  intro name hname
  induction names with
  | nil => cases hname
  | cons n names ih =>
    unfold value exposing at *
    rw [List.map_cons, List.lookup_cons]
    cases hn : name == n with
    | true => rfl
    | false =>
      refine ih ((List.mem_cons.1 hname).resolve_left ?_)
      rintro rfl
      simp at hn

end Locals

def Eval.Gives {σ α : Type} (x : Eval σ α) (a : α) : Prop := ∀ s, ∃ s', x s = .ok a s'

namespace Eval.Gives

variable {σ α β : Type}

theorem pure (a : α) : Gives (Pure.pure a : Eval σ α) a := fun s => ⟨s, rfl⟩

theorem bind {x : Eval σ α} {f : α → Eval σ β} {a : α} {b : β} (hx : Gives x a)
    (hf : Gives (f a) b) : Gives (x >>= f) b := by
  intro s
  obtain ⟨s', hs⟩ := hx s
  rw [Eval.bind_ok hs]
  exact hf s'

theorem write {v : Value} (h : v.hasText = true) : Gives (v.write : Eval σ String) v.text := by
  rw [Value.write, Value.text?, if_pos h]
  exact pure _

theorem object (arguments : List Value) :
    Gives (Host.showing.call (.host ⟨"object"⟩) arguments) (.dict [(.str "args", .list arguments)]) :=
  fun _ => ⟨_, rfl⟩

end Eval.Gives

namespace Expr

variable {locals : Locals}

mutual

theorem hasText_exposed {e : Expr} (he : e.IsParsed) : e.exposed.hasText = true := by
  cases he with
  | literal hv => exact hv.hasText
  | identifier => rfl
  | call _ harguments =>
    have hlist := allHaveText_exposedAll harguments
    simp [exposed, Value.hasText, Value.entriesHaveText, hlist]
  | array helements => exact allHaveText_exposedAll helements
  | object _ _ hproperties => exact entriesHaveText_exposedProperties hproperties
  | template => rfl

theorem allHaveText_exposedAll {es : List Expr} (hes : ∀ e ∈ es, e.IsParsed) :
    Value.allHaveText (exposedAll es) = true := by
  cases es with
  | nil => rfl
  | cons e es =>
    obtain ⟨he, hes⟩ := List.forall_mem_cons.1 hes
    rw [exposedAll, Value.allHaveText, hasText_exposed he, allHaveText_exposedAll hes]
    rfl

theorem entriesHaveText_exposedProperties {ps : List (String × Expr)}
    (hps : ∀ p ∈ ps, p.2.IsParsed) : Value.entriesHaveText (exposedProperties ps) = true := by
  cases ps with
  | nil => rfl
  | cons p ps =>
    obtain ⟨hp, hps⟩ := List.forall_mem_cons.1 hps
    rw [exposedProperties, Value.entriesHaveText, hasText_exposed hp,
      entriesHaveText_exposedProperties hps]
    rfl

end

mutual

theorem evaluate_exposed {e : Expr} (he : e.IsParsed) (hl : locals.Exposes e.names) :
    (e.evaluate Host.showing.call locals).Gives e.exposed := by
  cases he with
  | literal => exact .pure _
  | identifier =>
    rw [evaluate, hl _ List.mem_cons_self]
    exact .pure _
  | @call name arguments _ harguments =>
    obtain ⟨hname, hnames⟩ := List.forall_mem_cons.1 hl
    have hcallee : callee locals name = .ok (.host ⟨"object"⟩) := by rw [callee, hname]
    rw [evaluate, hcallee]
    exact .bind (.pure _) (.bind (evaluateAll_exposed harguments hnames) (.object _))
  | array helements => exact .bind (evaluateAll_exposed helements hl) (.pure _)
  | object _ _ hproperties => exact .bind (evaluateProperties_exposed hproperties hl) (.pure _)
  | template hparts => exact .bind (evaluateText_exposed hparts hl) (.pure _)

theorem evaluateAll_exposed {es : List Expr} (hes : ∀ e ∈ es, e.IsParsed)
    (hl : locals.Exposes (namesAll es)) :
    (evaluateAll Host.showing.call locals es).Gives (exposedAll es) := by
  cases es with
  | nil => exact .pure _
  | cons e es =>
    obtain ⟨he, hes⟩ := List.forall_mem_cons.1 hes
    obtain ⟨hl, hls⟩ := List.forall_mem_append.1 hl
    exact .bind (evaluate_exposed he hl) (.bind (evaluateAll_exposed hes hls) (.pure _))

theorem evaluateText_exposed {es : List Expr} (hes : ∀ e ∈ es, e.IsParsed)
    (hl : locals.Exposes (namesAll es)) :
    (evaluateText Host.showing.call locals es).Gives (Value.joinText (exposedAll es)) := by
  cases es with
  | nil => exact .pure _
  | cons e es =>
    obtain ⟨he, hes⟩ := List.forall_mem_cons.1 hes
    obtain ⟨hl, hls⟩ := List.forall_mem_append.1 hl
    rw [exposedAll, Value.joinText_cons]
    exact .bind (evaluate_exposed he hl) (.bind (.write (hasText_exposed he))
      (.bind (evaluateText_exposed hes hls) (.pure _)))

theorem evaluateProperties_exposed {ps : List (String × Expr)}
    (hps : ∀ p ∈ ps, p.2.IsParsed) (hl : locals.Exposes (namesProperties ps)) :
    (evaluateProperties Host.showing.call locals ps).Gives (exposedProperties ps) := by
  cases ps with
  | nil => exact .pure _
  | cons p ps =>
    obtain ⟨name, e⟩ := p
    obtain ⟨he, hps⟩ := List.forall_mem_cons.1 hps
    obtain ⟨hl, hls⟩ := List.forall_mem_append.1 hl
    exact .bind (evaluate_exposed he hl) (.bind (evaluateProperties_exposed hps hls) (.pure _))

end

end Expr

theorem Host.render_exposed {p : Phrase} {locals : Locals} (hp : ∀ e ∈ p, e.IsParsed)
    (hl : locals.Exposes p.names) :
    (showing.render p locals).1 = .ok (Value.joinText (Expr.exposedAll p)) := by
  obtain ⟨log, hlog⟩ := Expr.evaluateAll_exposed hp hl []
  rw [render, shown, joined, evaluate, Phrase.evaluate, hlog]
  simp [Except.map, Except.bind, Value.joinText?, Expr.allHaveText_exposedAll hp, written]

section Texts

variable {α : Type} {sep : String} {f : α → String} {as bs : List α} {r s : List Char} {use : Use}

def eachAfter (sep : String) (f : α → String) (as : List α) : List Char :=
  as.flatMap fun a => sep.toList ++ (f a).toList

theorem eachAfter_cons (sep : String) (f : α → String) (a : α) (as : List α) (r : List Char) :
    eachAfter sep f (a :: as) ++ r =
      sep.toList ++ ((f a).toList ++ (eachAfter sep f as ++ r)) := by
  simp [eachAfter]

theorem separator_intercalate (sep : String) (f : α → String) (a : α) (as : List α) :
    sep.toList ++ (sep.intercalate ((a :: as).map f)).toList = eachAfter sep f (a :: as) := by
  induction as generalizing a with
  | nil => simp [eachAfter]
  | cons b as ih =>
    have hnext := eachAfter_cons sep f a (b :: as) []
    rw [List.append_nil, List.append_nil, ← ih] at hnext
    rw [hnext]
    simp [String.intercalate_cons_cons]

theorem eachAfter_of_intercalate (hlength : as.length = bs.length)
    (h : (sep.intercalate (as.map f)).toList ++ r = (sep.intercalate (bs.map f)).toList ++ s) :
    eachAfter sep f as ++ r = eachAfter sep f bs ++ s := by
  cases as with
  | nil =>
    obtain rfl := List.length_eq_zero_iff.1 hlength.symm
    exact h
  | cons a as => cases bs with
    | nil => cases hlength
    | cons b bs =>
      rw [← separator_intercalate, ← separator_intercalate, List.append_assoc, h,
        List.append_assoc]

theorem ends_eachAfter (hsep : ∀ rest, use.Ends (sep.toList ++ rest)) (as : List α)
    (hr : use.Ends r) : use.Ends (eachAfter sep f as ++ r) := by
  cases as with
  | nil => exact hr
  | cons a as =>
    rw [eachAfter_cons]
    exact hsep _

namespace Use

def opening : Use → List Char
  | .text => []
  | .value => ['[']

def separator : Use → String
  | .text => ","
  | .value => ", "

def closing : Use → List Char
  | .text => []
  | .value => [']']

theorem ends_separator (use : Use) (rest : List Char) :
    use.Ends (use.separator.toList ++ rest) := by
  cases use with
  | text => trivial
  | value => exact .cons (.inl rfl) _

theorem Ends.closing (h : use.Ends r) : use.Ends (use.closing ++ r) := by
  cases use with
  | text => exact h
  | value => exact .cons (.inr (.inl rfl)) _

end Use

namespace Value

theorem inspectItems_eq_map (vs : List Value) : inspectItems vs = vs.map inspect := by
  induction vs with
  | nil => rfl
  | cons v vs ih => rw [inspectItems, ih, List.map_cons]

def inspectEntry (entry : Value × Value) : String := entry.1.inspect ++ ": " ++ entry.2.inspect

theorem inspectEntries_eq_map (entries : List (Value × Value)) :
    inspectEntries entries = entries.map inspectEntry := by
  induction entries with
  | nil => rfl
  | cons entry entries ih => rw [inspectEntries, ih, List.map_cons, inspectEntry]

theorem shown_list (use : Use) (vs : List Value) : (use.shown (.list vs)).toList =
    use.opening ++ (use.separator.intercalate (vs.map use.shown)).toList ++ use.closing := by
  cases use with
  | text =>
    rw [Use.shown, text, textItems_eq_map, Use.closing, List.append_nil]
    rfl
  | value =>
    rw [Use.shown, inspect, inspectItems_eq_map, String.toList_append, String.toList_append]
    rfl

theorem eachAfter_of_shown_list {vs ws : List Value} (hlength : vs.length = ws.length)
    (h : (use.shown (.list vs)).toList ++ r = (use.shown (.list ws)).toList ++ s) :
    eachAfter use.separator use.shown vs ++ (use.closing ++ r) =
      eachAfter use.separator use.shown ws ++ (use.closing ++ s) := by
  simp only [shown_list, List.append_assoc, List.append_cancel_left_eq] at h
  exact eachAfter_of_intercalate hlength h

theorem shown_dict (use : Use) (entries : List (Value × Value)) :
    (use.shown (.dict entries)).toList =
      '\x7b' :: (", ".intercalate (entries.map inspectEntry)).toList ++ ['\x7d'] := by
  have hinspect : use.shown (.dict entries) = inspect (.dict entries) := by
    cases use with
    | text => rw [Use.shown, text, display] <;> simp
    | value => rfl
  rw [hinspect, inspect, inspectEntries_eq_map, String.toList_append, String.toList_append]
  rfl

theorem eachAfter_of_shown_dict {es fs : List (Value × Value)} (hlength : es.length = fs.length)
    (h : (use.shown (.dict es)).toList ++ r = (use.shown (.dict fs)).toList ++ s) :
    eachAfter ", " inspectEntry es ++ '\x7d' :: r =
      eachAfter ", " inspectEntry fs ++ '\x7d' :: s := by
  simp only [shown_dict, List.cons_append, List.append_assoc, List.nil_append, List.cons.injEq,
    true_and] at h
  exact eachAfter_of_intercalate hlength h

theorem inspectEntry_append_inj {key : Value} {v w : Value}
    (h : (inspectEntry (key, v)).toList ++ r = (inspectEntry (key, w)).toList ++ s) :
    (Use.shown .value v).toList ++ r = (Use.shown .value w).toList ++ s := by
  simpa [inspectEntry, Use.shown] using h

theorem toList_joinText (vs : List Value) :
    (joinText vs).toList = eachAfter "" (Use.shown .text) vs := by
  rw [joinText, textItems_eq_map, String.toList_join, List.flatMap_map]
  rfl

end Value

end Texts

namespace Expr

theorem alikeAll_of_list {xs ys : List Expr} {use : Use} {r s : List Char} (hsame : AllSame xs ys)
    (hitems : ∀ {r s}, use.Ends r → use.Ends s →
      eachAfter use.separator use.shown (exposedAll xs) ++ r =
        eachAfter use.separator use.shown (exposedAll ys) ++ s →
      alikeAll use xs ys = true ∧ r = s)
    (hr : use.Ends r) (hs : use.Ends s)
    (h : (use.shown (.list (exposedAll xs))).toList ++ r =
      (use.shown (.list (exposedAll ys))).toList ++ s) :
    alikeAll use xs ys = true ∧ r = s := by
  have hlength : (exposedAll xs).length = (exposedAll ys).length := by
    rw [length_exposedAll, length_exposedAll, hsame.length_eq]
  obtain ⟨ha, hrest⟩ := hitems hr.closing hs.closing (Value.eachAfter_of_shown_list hlength h)
  exact ⟨ha, List.append_cancel_left hrest⟩

mutual

/-- Where equal expressions are shown at the front of the same text, they are alike and end there.
-/
theorem alike_of_shown {e d : Expr} {use : Use} {r s : List Char} (he : e.IsParsed)
    (hd : d.IsParsed) (hsame : e.same d = true) (hr : use.Ends r) (hs : use.Ends s)
    (h : (use.shown e.exposed).toList ++ r = (use.shown d.exposed).toList ++ s) :
    e.alike use d = true ∧ r = s := by
  cases opposite_of_same hsame with
  | identifier | unknown => exact ⟨rfl, List.append_cancel_left h⟩
  | literal hvw =>
    cases he with
    | literal hv => cases hd with
      | literal hw =>
        exact (hv.counterparts hw hvw).shown_append hv.hasText hw.hasText hr hs h
  | @call callee xs ys hargs =>
    cases he with
    | call _ hxs => cases hd with
      | call _ hys =>
        rw [exposed, exposed] at h
        have hentry := Value.eachAfter_of_shown_dict (by rfl) h
        rw [eachAfter_cons, eachAfter_cons] at hentry
        have hlist := Value.inspectEntry_append_inj (List.append_cancel_left hentry)
        obtain ⟨ha, hrest⟩ := alikeAll_of_list hargs
          (alikeAll_of_shown (Use.ends_separator .value) hxs hys hargs)
          (.cons (.inr (.inr rfl)) r) (.cons (.inr (.inr rfl)) s) hlist
        exact ⟨ha, (List.cons.inj hrest).2⟩
  | @array xs ys helements =>
    cases he with
    | array hxs => cases hd with
      | array hys =>
        rw [exposed, exposed] at h
        exact alikeAll_of_list helements (alikeAll_of_shown use.ends_separator hxs hys helements)
          hr hs h
  | @object ps qs hproperties =>
    cases he with
    | object _ _ hps => cases hd with
      | object _ _ hqs =>
        have hlength : (exposedProperties ps).length = (exposedProperties qs).length := by
          rw [length_exposedProperties, length_exposedProperties, hproperties.length_eq]
        rw [exposed, exposed] at h
        obtain ⟨ha, hrest⟩ := alikeProperties_of_shown hps hqs hproperties
          (.cons (.inr (.inr rfl)) r) (.cons (.inr (.inr rfl)) s)
          (Value.eachAfter_of_shown_dict hlength h)
        exact ⟨ha, (List.cons.inj hrest).2⟩
  | @template xs ys hparts =>
    cases he with
    | template hxs => cases hd with
      | template hys =>
        have htext : ∀ {r s : List Char},
            (Value.joinText (exposedAll xs)).toList ++ r =
              (Value.joinText (exposedAll ys)).toList ++ s →
            alikeAll .text xs ys = true ∧ r = s := fun h => by
          rw [Value.toList_joinText, Value.toList_joinText] at h
          have hsep : ∀ rest, Use.Ends .text ("".toList ++ rest) := fun _ => trivial
          exact alikeAll_of_shown hsep hxs hys hparts trivial trivial h
        rw [exposed, exposed] at h
        cases use with
        | text =>
          rw [Use.shown, Use.shown, Value.text, Value.text] at h
          exact htext h
        | value =>
          rw [Use.shown, Use.shown, Value.inspect, Value.inspect] at h
          obtain ⟨hquoted, hrest⟩ := Text.quoted_append_inj h
          obtain ⟨ha, -⟩ := htext (r := []) (s := []) (by rw [hquoted])
          exact ⟨ha, hrest⟩

theorem alikeAll_of_shown {xs ys : List Expr} {use : Use} {sep : String} {r s : List Char}
    (hsep : ∀ rest, use.Ends (sep.toList ++ rest)) (hxs : ∀ e ∈ xs, e.IsParsed)
    (hys : ∀ e ∈ ys, e.IsParsed) (hsame : AllSame xs ys) (hr : use.Ends r) (hs : use.Ends s)
    (h : eachAfter sep use.shown (exposedAll xs) ++ r =
      eachAfter sep use.shown (exposedAll ys) ++ s) :
    alikeAll use xs ys = true ∧ r = s := by
  cases hsame with
  | nil => exact ⟨rfl, h⟩
  | @cons x y xs ys hx hsame =>
    obtain ⟨hx', hxs⟩ := List.forall_mem_cons.1 hxs
    obtain ⟨hy', hys⟩ := List.forall_mem_cons.1 hys
    rw [exposedAll, exposedAll, eachAfter_cons, eachAfter_cons] at h
    obtain ⟨ha, hrest⟩ := alike_of_shown hx' hy' hx (ends_eachAfter hsep (exposedAll xs) hr)
      (ends_eachAfter hsep (exposedAll ys) hs) (List.append_cancel_left h)
    obtain ⟨has, hrest⟩ := alikeAll_of_shown hsep hxs hys hsame hr hs hrest
    exact ⟨by rw [alikeAll, ha, has, Bool.and_true], hrest⟩

theorem alikeProperties_of_shown {ps qs : List (String × Expr)} {r s : List Char}
    (hps : ∀ p ∈ ps, p.2.IsParsed) (hqs : ∀ q ∈ qs, q.2.IsParsed) (hsame : PropertiesSame ps qs)
    (hr : Use.Ends .value r) (hs : Use.Ends .value s)
    (h : eachAfter ", " Value.inspectEntry (exposedProperties ps) ++ r =
      eachAfter ", " Value.inspectEntry (exposedProperties qs) ++ s) :
    alikeProperties ps qs = true ∧ r = s := by
  cases hsame with
  | nil => exact ⟨rfl, h⟩
  | @cons p q ps qs hpq hsame =>
    obtain ⟨name, x⟩ := p
    obtain ⟨key, y⟩ := q
    obtain ⟨rfl, hx⟩ : name = key ∧ x.same y = true := hpq
    obtain ⟨hx', hps⟩ := List.forall_mem_cons.1 hps
    obtain ⟨hy', hqs⟩ := List.forall_mem_cons.1 hqs
    rw [exposedProperties, exposedProperties, eachAfter_cons, eachAfter_cons] at h
    have hvalues := Value.inspectEntry_append_inj (List.append_cancel_left h)
    have hsep := Use.ends_separator .value
    obtain ⟨ha, hrest⟩ := alike_of_shown hx' hy' hx (ends_eachAfter hsep (exposedProperties ps) hr)
      (ends_eachAfter hsep (exposedProperties qs) hs) hvalues
    obtain ⟨has, hrest⟩ := alikeProperties_of_shown hps hqs hsame hr hs hrest
    exact ⟨by rw [alikeProperties, ha, has, Bool.and_true], hrest⟩

end

end Expr

namespace Phrase

variable {p q : Phrase}

theorem alike_of_render {locals : Locals} (hp : ∀ e ∈ p, e.IsParsed) (hq : ∀ e ∈ q, e.IsParsed)
    (hs : p.same q = true) (hpl : locals.Exposes p.names) (hql : locals.Exposes q.names)
    (h : (Host.showing.render p locals).1 = (Host.showing.render q locals).1) :
    p.alike q = true := by
  rw [Host.render_exposed hp hpl, Host.render_exposed hq hql, Except.ok.injEq] at h
  have heach : eachAfter "" (Use.shown .text) (Expr.exposedAll p) ++ [] =
      eachAfter "" (Use.shown .text) (Expr.exposedAll q) ++ [] := by
    rw [← Value.toList_joinText, ← Value.toList_joinText, h]
  have hsep : ∀ rest, Use.Ends .text ("".toList ++ rest) := fun _ => trivial
  exact (Expr.alikeAll_of_shown hsep hp hq (Expr.allSame_of_sameAll hs) trivial trivial heach).1

/-- Texts that are parsed to equal phrases mean the same just if their literals look alike: nowhere
is a truth value opposite a number, and where a literal is handed on as it is, as an argument or as
a property, no integer is opposite a float and no zero opposite one of the other sign. Then they
are rendered alike whatever functions do, by every host to the same text and calls or the same
failure and calls; otherwise some values of names tell their texts apart. -/
theorem render_eq_tfae_alike {a b : String} (hp : parse a = .ok p) (hq : parse b = .ok q)
    (hs : p.same q = true) :
    List.TFAE [p.alike q = true, p.SameText q,
      ∀ (host : Host) (locals : Locals), host.render p locals = host.render q locals,
      ∀ locals, (Host.showing.render p locals).1 = (Host.showing.render q locals).1] := by
  obtain ⟨-, hp⟩ := isParsed_of_parse hp
  obtain ⟨-, hq⟩ := isParsed_of_parse hq
  tfae_have 1 → 2 := sameText_of_alike hp hq hs
  tfae_have 2 → 3 := fun h host locals => by
    rw [Host.render, Host.render, Host.joined_of_sameText h]
  tfae_have 3 → 4 := fun h locals => congrArg Prod.fst (h .showing locals)
  tfae_have 4 → 1 := fun h => by
    have hnames := Locals.exposing_exposes (p.names ++ q.names)
    obtain ⟨hpl, hql⟩ := List.forall_mem_append.1 hnames
    exact alike_of_render hp hq hs hpl hql (h _)
  tfae_finish

theorem render_eq_tfae_alike_zeros :
    let p : Phrase := [.array [.literal (.int 0), .call "f" [.literal (.int 1)]]]
    let q : Phrase := [.array [.literal (.float (.finite true .empty)),
      .call "f" [.literal (.int 1)]]]
    parse "$\x7b[0, f(1)]\x7d" = .ok p ∧ parse "$\x7b[-0.0, f(1)]\x7d" = .ok q ∧
      p.same q = true ∧
      ∀ (host : Host) (locals : Locals), host.render p locals = host.render q locals := by
  intro p q
  have hints : Emits (.start "$\x7b[0, f(1)]\x7d")
      [⟨.expressionStart, "$\x7b", 0⟩, ⟨.bracketStart, "[", 2⟩, ⟨.number, "0", 3⟩,
        ⟨.comma, ",", 4⟩, ⟨.functionCall, "f", 6⟩, ⟨.number, "1", 8⟩, ⟨.parenEnd, ")", 9⟩,
        ⟨.bracketEnd, "]", 10⟩, ⟨.expressionEnd, "\x7d", 11⟩] ⟨[], 12, []⟩ := by decide +kernel
  have hfloats : Emits (.start "$\x7b[-0.0, f(1)]\x7d")
      [⟨.expressionStart, "$\x7b", 0⟩, ⟨.bracketStart, "[", 2⟩, ⟨.number, "-0.0", 3⟩,
        ⟨.comma, ",", 7⟩, ⟨.functionCall, "f", 9⟩, ⟨.number, "1", 11⟩, ⟨.parenEnd, ")", 12⟩,
        ⟨.bracketEnd, "]", 13⟩, ⟨.expressionEnd, "\x7d", 14⟩] ⟨[], 15, []⟩ := by decide +kernel
  have hp : parse "$\x7b[0, f(1)]\x7d" = .ok p := parse_of_emits hints rfl (by simp)
  have hq : parse "$\x7b[-0.0, f(1)]\x7d" = .ok q := parse_of_emits hfloats rfl (by simp)
  have hs : p.same q = true := by decide +kernel
  have ha : p.alike q = true := by decide +kernel
  have hrender := (render_eq_tfae_alike hp hq hs).out 0 2
  exact ⟨hp, hq, hs, hrender.1 ha⟩

/-- The truth value `true` is equal to `1`, and shows as a word. -/
theorem equal_phrases_render_differently :
    ∃ p q, parse "$\x7btrue\x7d" = .ok p ∧ parse "$\x7b1\x7d" = .ok q ∧ p.same q = true ∧
      Host.showing.render p [] ≠ Host.showing.render q [] := by
  have hword : Emits (.start "$\x7btrue\x7d")
      [⟨.expressionStart, "$\x7b", 0⟩, ⟨.boolean, "true", 2⟩, ⟨.expressionEnd, "\x7d", 6⟩]
      ⟨[], 7, []⟩ := by decide +kernel
  have hnumber : Emits (.start "$\x7b1\x7d")
      [⟨.expressionStart, "$\x7b", 0⟩, ⟨.number, "1", 2⟩, ⟨.expressionEnd, "\x7d", 3⟩]
      ⟨[], 4, []⟩ := by decide +kernel
  refine ⟨[.literal (.bool true)], [.literal (.int 1)], parse_of_emits hword rfl (by simp),
    parse_of_emits hnumber rfl (by simp), by decide +kernel, fun h => ?_⟩
  have htext : "true" = "1" := Except.ok.inj (congrArg Prod.fst h)
  exact absurd htext (by decide)

end Phrase

end MessageCatalog
