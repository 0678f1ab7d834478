import Mathlib.Data.List.Induction
import MessageCatalog.Rendering.Evaluation

/-!
# Entries put on top of others

What becomes of a dictionary when entries are put on top of it one by one: each key has the value
that was put last under it, and keeps the place where it first came.
-/
namespace MessageCatalog

namespace Entries

variable {κ ν : Type} [BEq κ]

theorem contains_keys (es : List (κ × ν)) (key : κ) :
    (es.map fun e => e.1).contains key = contains key es := by
  induction es with
  | nil => rfl
  | cons e es ih =>
    rw [List.map_cons, List.contains_cons, ih, contains, contains, List.lookup_cons]
    cases key == e.1 <;> rfl

variable [LawfulBEq κ]

theorem lookup_put (key other : κ) (value : ν) (es : List (κ × ν)) :
    (put key value es).lookup other = if other == key then some value else es.lookup other := by
  split
  · next h => rw [eq_of_beq h, lookup_put_self]
  · next h => exact lookup_put_of_ne (fun he => h (beq_iff_eq.2 he)) value es

theorem lookup_overlay (base upper : List (κ × ν)) (key : κ) :
    (overlay base upper).lookup key = (upper.reverse.lookup key).or (base.lookup key) := by
  induction upper generalizing base with
  | nil => rfl
  | cons e upper ih =>
    have hstep : overlay base (e :: upper) = overlay (put e.1 e.2 base) upper := rfl
    rw [hstep, ih, lookup_put, List.reverse_cons, List.lookup_append, Option.or_assoc]
    congr 1
    obtain ⟨k, v⟩ := e
    rw [List.lookup_cons, List.lookup_nil]
    cases key == k <;> rfl

theorem lookup_ofPairs (pairs : List (κ × ν)) (key : κ) :
    (ofPairs pairs).lookup key = pairs.reverse.lookup key := by
  rw [ofPairs, lookup_overlay, List.lookup_nil, Option.or_none]

theorem nodup_overlay {base : List (κ × ν)} (h : (base.map Prod.fst).Nodup)
    (upper : List (κ × ν)) : ((overlay base upper).map Prod.fst).Nodup := by
  induction upper generalizing base with
  | nil => exact h
  | cons e upper ih => exact ih (nodup_put h)

theorem keys_put_of_mem {key : κ} {es : List (κ × ν)} (h : key ∈ es.map Prod.fst) (value : ν) :
    (put key value es).map Prod.fst = es.map Prod.fst := by
  induction es with
  | nil => contradiction
  | cons e es ih =>
    rw [put]
    split
    · rfl
    · next he =>
      rw [List.map_cons, List.mem_cons] at h
      rw [List.map_cons, ih (h.resolve_left fun hk => he (beq_iff_eq.2 hk.symm)), List.map_cons]

theorem keys_ofPairs (pairs : List (κ × ν)) :
    (ofPairs pairs).map Prod.fst = (pairs.map Prod.fst).eraseDups := by
  induction pairs using List.reverseRecOn with
  | nil => rfl
  | append_singleton pairs e ih =>
    have hput : ofPairs (pairs ++ [e]) = put e.1 e.2 (ofPairs pairs) := List.foldl_append
    rw [hput, List.map_append, List.eraseDups_append, ← ih, List.map_singleton]
    by_cases h : e.1 ∈ (ofPairs pairs).map Prod.fst
    · have hold : e.1 ∈ pairs.map Prod.fst := by rwa [ih, List.mem_eraseDups] at h
      have hnone : [e.1].removeAll (pairs.map Prod.fst) = [] := by
        simp only [List.removeAll, List.filter_cons, List.elem_eq_mem, hold]
        rfl
      rw [keys_put_of_mem h, hnone, List.eraseDups_nil, List.append_nil]
    · have hnew : e.1 ∉ pairs.map Prod.fst := by rwa [ih, List.mem_eraseDups] at h
      have hone : [e.1].removeAll (pairs.map Prod.fst) = [e.1] := by
        simp only [List.removeAll, List.filter_cons, List.elem_eq_mem, hnew]
        rfl
      rw [put_of_not_mem h, hone, List.map_append]
      rfl

theorem mem_keys_put (key : κ) (value : ν) (es : List (κ × ν)) :
    key ∈ (put key value es).map Prod.fst :=
  List.mem_map_of_mem (mem_of_lookup (lookup_put_self key value es))

theorem mem_keys_put_of_mem {key : κ} {es : List (κ × ν)} (h : key ∈ es.map Prod.fst) (other : κ)
    (value : ν) : key ∈ (put other value es).map Prod.fst := by
  by_cases ho : other ∈ es.map Prod.fst
  · rwa [keys_put_of_mem ho]
  · rw [put_of_not_mem ho, List.map_append]
    exact List.mem_append_left _ h

theorem put_put_self (key : κ) (value old : ν) (es : List (κ × ν)) :
    put key value (put key old es) = put key value es := by
  induction es with
  | nil => simp [put]
  | cons e es ih =>
    simp only [put]
    split
    · next h => simp [put, h]
    · next h => simp [put, h, ih]

/-- A key that is there keeps its place, so it makes no difference when its value is put. -/
theorem put_comm {key other : κ} {es : List (κ × ν)} (hne : key ≠ other)
    (hmem : key ∈ es.map Prod.fst) (value old : ν) :
    put key value (put other old es) = put other old (put key value es) := by
  induction es with
  | nil => contradiction
  | cons e es ih =>
    obtain ⟨k, v⟩ := e
    by_cases hk : k = key
    · subst hk
      simp [put, hne]
    · have hmem' : key ∈ es.map Prod.fst := by
        rw [List.map_cons, List.mem_cons] at hmem
        exact hmem.resolve_left fun h => hk h.symm
      by_cases ho : k = other
      · subst ho
        simp [put, hk]
      · simp [put, hk, ho, ih hmem']

theorem overlay_put_of_not_mem {key : κ} {base upper : List (κ × ν)}
    (hbase : key ∈ base.map Prod.fst) (hupper : key ∉ upper.map Prod.fst) (value : ν) :
    overlay (put key value base) upper = put key value (overlay base upper) := by
  induction upper generalizing base with
  | nil => rfl
  | cons e upper ih =>
    rw [List.map_cons, List.mem_cons, not_or] at hupper
    have hstep := put_comm hupper.1 hbase value e.2
    change overlay (put e.1 e.2 (put key value base)) upper = _
    rw [← hstep]
    exact ih (mem_keys_put_of_mem hbase e.1 e.2) hupper.2

theorem overlay_put {key : κ} {upper : List (κ × ν)} (h : (upper.map Prod.fst).Nodup)
    (base : List (κ × ν)) (value : ν) :
    overlay base (put key value upper) = put key value (overlay base upper) := by
  induction upper generalizing base with
  | nil => rfl
  | cons e upper ih =>
    obtain ⟨k, v⟩ := e
    rw [List.map_cons, List.nodup_cons] at h
    by_cases hk : k = key
    · subst hk
      have hput : put k value ((k, v) :: upper) = (k, value) :: upper := by simp [put]
      rw [hput]
      change overlay (put k value base) upper = put k value (overlay (put k v base) upper)
      rw [← overlay_put_of_not_mem (mem_keys_put k v base) h.1, put_put_self]
    · have hput : put key value ((k, v) :: upper) = (k, v) :: put key value upper := by
        simp [put, hk]
      rw [hput]
      exact ih h.2 (put k v base)

theorem overlay_ofPairs (base pairs : List (κ × ν)) :
    overlay base (ofPairs pairs) = overlay base pairs := by
  induction pairs using List.reverseRecOn with
  | nil => rfl
  | append_singleton pairs e ih =>
    have hpairs : ofPairs (pairs ++ [e]) = put e.1 e.2 (ofPairs pairs) := List.foldl_append
    have hoverlay : overlay base (pairs ++ [e]) = put e.1 e.2 (overlay base pairs) :=
      List.foldl_append
    have hnodup : ((ofPairs pairs).map Prod.fst).Nodup := nodup_overlay (by simp) pairs
    rw [hpairs, hoverlay, overlay_put hnodup, ih]

theorem lookup_overlay_ofPairs (base pairs : List (κ × ν)) (key : κ) :
    (overlay base (ofPairs pairs)).lookup key =
      ((ofPairs pairs).lookup key).or (base.lookup key) := by
  rw [overlay_ofPairs, lookup_overlay, lookup_ofPairs]

end Entries

namespace Locals

theorem mem_ofEntries {name : String} {v : Value} {entries : List (Value × Value)} :
    (name, v) ∈ ofEntries entries ↔ (.str name, v) ∈ entries := by
  rw [ofEntries, List.mem_filterMap]
  constructor
  · rintro ⟨⟨key, w⟩, hmem, h⟩
    split at h
    · next hkey =>
      cases h
      exact (show key = _ from hkey) ▸ hmem
    · contradiction
  · exact fun h => ⟨_, h, rfl⟩

theorem lookup_ofEntries_of_not_mem {name : String} {entries : List (Value × Value)}
    (h : .str name ∉ entries.map Prod.fst) : (ofEntries entries).reverse.lookup name = none := by
  rw [List.lookup_eq_none_iff]
  intro ⟨other, v⟩ hmem
  have hother : .str other ∈ entries.map Prod.fst :=
    List.mem_map_of_mem (mem_ofEntries.1 (List.mem_reverse.1 hmem))
  have hne : name ≠ other := fun heq => h (heq ▸ hother)
  simpa using hne

end Locals

end MessageCatalog
