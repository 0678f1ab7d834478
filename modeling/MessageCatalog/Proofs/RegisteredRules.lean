import Mathlib
import MessageCatalog.PluralCategory

/-!
# Registered plural rules

Which rule a locale has after some registrations: the latest one for its tag, or else the latest one
for its first subtag, where tags are the same if they differ only in the case of letters and in
underscores for hyphens. Locales may be written either way, but tags have to be registered with
hyphens: a rule that is registered for a tag with an underscore is never found.
-/
namespace MessageCatalog

namespace Text

theorem toLower_of_not_isAlpha {c : Char} (h : c.isAlpha = false) : c.toLower = c := by
  have hupper : c.isUpper = false := (Bool.or_eq_false_iff.1 h).1
  exact Char.toLower_eq_of_not_isUpper (Bool.eq_false_iff.1 hupper)

theorem toLower_eq_iff {c d : Char} (hd : d.isAlpha = false) : c.toLower = d ↔ c = d := by
  constructor
  · rintro rfl
    rw [Char.isAlpha_toLower_eq_isAlpha] at hd
    exact (toLower_of_not_isAlpha hd).symm
  · rintro rfl
    exact toLower_of_not_isAlpha hd

end Text

namespace PluralRules
open Text

variable {tag locale : String}

def hyphen (c : Char) : Char := if c = '_' then '-' else c

def hyphened (tag : String) : String := String.ofList (tag.toList.map hyphen)

/-- Tags that differ at most in the case of letters and in underscores for hyphens. -/
def sameTag (a b : String) : Bool := lower (hyphened a) == lower (hyphened b)

def firstSubtag (tag : String) : String :=
  String.ofList (tag.toList.takeWhile fun c => c != '-' && c != '_')

def hasUnderscore (tag : String) : Bool := tag.toList.contains '_'

def isPlain (tag : String) : Bool := tag.toList.all fun c => c.toNat < 128

theorem hyphen_toLower_ne (c : Char) : (hyphen c).toLower ≠ '_' := by
  rw [Ne, toLower_eq_iff rfl, hyphen]
  split
  · decide
  · assumption

theorem hyphen_toLower_eq_iff {c : Char} : (hyphen c).toLower = '-' ↔ c = '-' ∨ c = '_' := by
  rw [toLower_eq_iff rfl, hyphen]
  split <;> simp [*]

theorem hyphened_eq_self (h : hasUnderscore tag = false) : hyphened tag = tag := by
  have hmap : tag.toList.map hyphen = tag.toList := by
    refine (List.map_congr_left fun c hc => ?_).trans (List.map_id _)
    have hne : c ≠ '_' := by
      rintro rfl
      simp [hasUnderscore, hc] at h
    exact if_neg hne
  rw [hyphened, hmap, String.ofList_toList]

theorem flatMap_lowerChar {cs : List Char} (h : ∀ c ∈ cs, c.toNat < 128) :
    cs.flatMap lowerChar = cs.map Char.toLower := by
  induction cs with
  | nil => rfl
  | cons c cs ih =>
    obtain ⟨hc, hcs⟩ := List.forall_mem_cons.1 h
    rw [List.flatMap_cons, lowerChar_of_ascii hc, ih hcs]
    rfl

theorem lower_hyphened (h : isPlain tag = true) :
    lower (hyphened tag) = String.ofList (tag.toList.map fun c => (hyphen c).toLower) := by
  have hascii : ∀ c ∈ tag.toList.map hyphen, c.toNat < 128 := by
    intro c hc
    obtain ⟨d, hd, rfl⟩ := List.mem_map.1 hc
    unfold hyphen
    split
    · decide
    · exact of_decide_eq_true (List.all_eq_true.1 h d hd)
  rw [lower, hyphened, String.toList_ofList, flatMap_lowerChar hascii, List.map_map]
  rfl

theorem isPlain_firstSubtag (h : isPlain tag = true) : isPlain (firstSubtag tag) = true := by
  rw [isPlain, firstSubtag, String.toList_ofList]
  exact List.all_eq_true.2 fun c hc => List.all_eq_true.1 h c ((List.takeWhile_sublist _).mem hc)

theorem languageOf_tagOf (h : isPlain locale = true) :
    languageOf (tagOf locale) = lower (hyphened (firstSubtag locale)) := by
  have htag : tagOf locale = lower (hyphened locale) := rfl
  have hends : (fun c : Char => (hyphen c).toLower != '-') = fun c => c != '-' && c != '_' := by
    funext c
    rw [Bool.eq_iff_iff]
    simp [hyphen_toLower_eq_iff]
  rw [htag, lower_hyphened h, lower_hyphened (isPlain_firstSubtag h), languageOf, firstSubtag,
    String.toList_ofList, String.toList_ofList, List.takeWhile_map]
  exact congrArg (fun p => String.ofList ((locale.toList.takeWhile p).map _)) hends

theorem lower_eq_iff (h : isPlain locale = true) :
    lower tag = lower (hyphened locale) ↔ hasUnderscore tag = false ∧ sameTag tag locale = true := by
  constructor
  · intro hlower
    have hunder : hasUnderscore tag = false := by
      cases hu : hasUnderscore tag with
      | false => rfl
      | true =>
        have hmem : '_' ∈ (lower tag).toList := by
          rw [lower, String.toList_ofList]
          exact List.mem_flatMap.2 ⟨'_', List.contains_iff_mem.1 hu, by decide⟩
        rw [hlower, lower_hyphened h, String.toList_ofList] at hmem
        obtain ⟨c, -, hc⟩ := List.mem_map.1 hmem
        exact absurd hc (hyphen_toLower_ne c)
    exact ⟨hunder, by rw [sameTag, hyphened_eq_self hunder, hlower, beq_self_eq_true]⟩
  · rintro ⟨hunder, hsame⟩
    rw [sameTag, hyphened_eq_self hunder] at hsame
    exact eq_of_beq hsame

def latest? (p : String → Bool) (history : PluralRules) : Option PluralRule :=
  (history.reverse.find? fun r => p r.1).map (·.2)

def registered (registrations : PluralRules) : PluralRules :=
  registrations.foldl (fun rules r => register rules r.1 r.2) builtIn

def ruleFor (history : PluralRules) (locale : String) : Option PluralRule :=
  (latest? (sameTag · locale) history).or (latest? (sameTag · (firstSubtag locale)) history)

theorem latest?_cons (p : String → Bool) (r : String × PluralRule) (history : PluralRules) :
    latest? p (r :: history) = (latest? p history).or (if p r.1 then some r.2 else none) := by
  rw [latest?, List.reverse_cons, List.find?_append, latest?, Option.map_or]
  cases h : p r.1 <;> simp [h]

theorem lookup_foldl_register (key : String) (rules registrations : PluralRules) :
    (registrations.foldl (fun rules r => register rules r.1 r.2) rules).lookup key =
      (latest? (lower · == key) registrations).or (rules.lookup key) := by
  induction registrations generalizing rules with
  | nil => rfl
  | cons r registrations ih =>
    rw [List.foldl_cons, ih, latest?_cons, Option.or_assoc]
    congr 1
    by_cases h : lower r.1 = key
    · rw [register, h, Entries.lookup_put_self]
      simp
    · rw [register, Entries.lookup_put_of_ne (Ne.symm h)]
      simp [h]

theorem lookup_registered (key : String) (registrations : PluralRules) :
    (registered registrations).lookup key = latest? (lower · == key) (builtIn ++ registrations) := by
  have hbuiltIn : builtIn = builtIn.foldl (fun rules r => register rules r.1 r.2) [] := rfl
  rw [registered, hbuiltIn, ← List.foldl_append, lookup_foldl_register, ← hbuiltIn]
  simp

theorem latest?_lower (h : isPlain locale = true) (history : PluralRules) :
    latest? (lower · == lower (hyphened locale)) history =
      latest? (sameTag · locale) (history.filter fun r => !hasUnderscore r.1) := by
  have hfound : (fun r : String × PluralRule => lower r.1 == lower (hyphened locale)) =
      fun r => decide ((!hasUnderscore r.1) = true ∧ sameTag r.1 locale = true) := by
    funext r
    rw [Bool.eq_iff_iff]
    simp [lower_eq_iff h]
  rw [latest?, latest?, ← List.filter_reverse, List.find?_filter, hfound]

theorem find_registered (registrations : PluralRules) (h : isPlain locale = true) :
    (registered registrations).find? locale =
      ruleFor ((builtIn ++ registrations).filter fun r => !hasUnderscore r.1) locale := by
  rw [find?, lookup_registered, lookup_registered, languageOf_tagOf h, ruleFor, ← latest?_lower h,
    ← latest?_lower (isPlain_firstSubtag h)]
  rfl

theorem latest?_eq_none_iff {p : String → Bool} {history : PluralRules} :
    latest? p history = none ↔ ∀ r ∈ history, p r.1 = false := by
  simp [latest?]

theorem latest?_concat (p : String → Bool) (history : PluralRules) {r : String × PluralRule}
    (h : p r.1 = true) : latest? p (history ++ [r]) = some r.2 := by
  simp [latest?, h]

/-- The category of a value is given by the rule that was registered last for the tag of the
locale, or else for its first subtag, among the rules whose tags have no underscore, and there is
none exactly if no such tag is the same as one of the two. So a rule is found right after it has
been registered for a locale that is written with hyphens. -/
theorem category_registered (registrations : PluralRules) {locale : String} (h : isPlain locale = true)
    (v : Value) (ordinal : Bool) :
    (registered registrations).category? locale v ordinal =
        (ruleFor ((builtIn ++ registrations).filter fun r => !hasUnderscore r.1) locale).map
          (fun rule => rule v ordinal) ∧
      ((registered registrations).category? locale v ordinal = none ↔
        ∀ r ∈ builtIn ++ registrations, hasUnderscore r.1 = false →
          sameTag r.1 locale = false ∧ sameTag r.1 (firstSubtag locale) = false) ∧
      (hasUnderscore locale = false → ∀ rule,
        (registered (registrations ++ [(locale, rule)])).category? locale v ordinal =
          some (rule v ordinal)) := by
  have hcategory : ∀ registrations : PluralRules,
      (registered registrations).category? locale v ordinal =
        (ruleFor ((builtIn ++ registrations).filter fun r => !hasUnderscore r.1) locale).map
          (fun rule => rule v ordinal) := by
    intro registrations
    rw [category?, find_registered registrations h]
  refine ⟨hcategory registrations, ?_, fun hunder rule => ?_⟩
  · rw [hcategory, Option.map_eq_none_iff, ruleFor, Option.or_eq_none_iff, latest?_eq_none_iff,
      latest?_eq_none_iff]
    simp only [List.mem_filter, Bool.not_eq_true', and_imp]
    exact ⟨fun hnone r hr hunder => ⟨hnone.1 r hr hunder, hnone.2 r hr hunder⟩, fun hnone =>
      ⟨fun r hr hunder => (hnone r hr hunder).1, fun r hr hunder => (hnone r hr hunder).2⟩⟩
  · have hkept : (builtIn ++ (registrations ++ [(locale, rule)])).filter (fun r => !hasUnderscore r.1) =
        (builtIn ++ registrations).filter (fun r => !hasUnderscore r.1) ++ [(locale, rule)] := by
      rw [← List.append_assoc, List.filter_append]
      simp [hunder]
    rw [hcategory, hkept, ruleFor, latest?_concat _ _ (by simp [sameTag])]
    rfl

theorem category_registered_hyphens :
    let registrations : PluralRules := [("en-XA", fun _ _ => .ok .zero), ("EN-xa", fun _ _ => .ok .few)]
    isPlain "En_xA" = true ∧ isPlain "En-xA" = true ∧ sameTag "EN-xa" "En_xA" = true ∧
      hasUnderscore "En-xA" = false ∧
      (registered registrations).category? "En_xA" (.int 1) false = some (.ok .few) ∧
      (registered (registrations ++ [("En-xA", fun _ _ => .ok .two)])).category? "En-xA" (.int 1) false =
        some (.ok .two) := by
  intro registrations
  have hlocale : isPlain "En_xA" = true := rfl
  have htag : isPlain "En-xA" = true := rfl
  have hcategory := (category_registered registrations hlocale (.int 1) false).1
  have hlatest := (category_registered registrations htag (.int 1) false).2.2 rfl
  exact ⟨hlocale, htag, by decide +kernel, rfl, hcategory.trans (by decide +kernel), hlatest _⟩

/-- A rule that is registered for a tag with an underscore is not found for this tag: what there is
for its language is taken instead. -/
theorem category_registered_underscore :
    ¬ ∀ (registrations : PluralRules) (locale : String), isPlain locale = true →
      ∀ (v : Value) (ordinal : Bool), (registered registrations).category? locale v ordinal =
        (ruleFor (builtIn ++ registrations) locale).map fun rule => rule v ordinal := by
  intro h
  have hfound := h [("en_XB", fun _ _ => .ok .zero)] "en_XB" rfl (.int 1) false
  exact absurd hfound (by decide +kernel)

end PluralRules

end MessageCatalog
