/-!
# Entries

Dictionaries as lists of keys and values in the order in which the keys first came. Putting a value
under a key that is there already replaces the value and keeps the key and its place.
-/
namespace MessageCatalog.Entries

variable {κ ν : Type} [BEq κ]

def put (key : κ) (value : ν) : List (κ × ν) → List (κ × ν)
  | [] => [(key, value)]
  | e :: rest => if e.1 == key then (e.1, value) :: rest else e :: put key value rest

/-- The entries of `base` with those of `upper` put on top, one by one. -/
def overlay (base upper : List (κ × ν)) : List (κ × ν) :=
  upper.foldl (fun es e => put e.1 e.2 es) base

def ofPairs (pairs : List (κ × ν)) : List (κ × ν) := overlay [] pairs

def remove (key : κ) (es : List (κ × ν)) : List (κ × ν) := es.filter fun e => !(e.1 == key)

def contains (key : κ) (es : List (κ × ν)) : Bool := (es.lookup key).isSome

theorem lookup_put_self [LawfulBEq κ] (key : κ) (value : ν) (es : List (κ × ν)) :
    (put key value es).lookup key = some value := by
  induction es with
  | nil => simp [put]
  | cons e rest ih =>
    obtain ⟨k, v⟩ := e
    simp only [put]
    split
    · next h => simp [eq_of_beq h]
    · next h =>
      have hne : (key == k) = false := by
        simp only [beq_eq_false_iff_ne, ne_eq]
        intro heq
        simp [heq] at h
      simp [List.lookup_cons, hne, ih]

theorem lookup_put_of_ne [LawfulBEq κ] {key other : κ} (h : other ≠ key) (value : ν)
    (es : List (κ × ν)) : (put key value es).lookup other = es.lookup other := by
  induction es with
  | nil =>
    have hne : (other == key) = false := by simp [h]
    simp [put, List.lookup_cons, hne]
  | cons e rest ih =>
    obtain ⟨k, v⟩ := e
    simp only [put]
    split
    · next he =>
      have hne : (other == k) = false := by simp [eq_of_beq he, h]
      simp [List.lookup_cons, hne]
    · simp only [List.lookup_cons]
      rw [ih]

theorem lookup_remove_self [LawfulBEq κ] (key : κ) (es : List (κ × ν)) :
    (remove key es).lookup key = none := by
  induction es with
  | nil => rfl
  | cons e rest ih =>
    obtain ⟨k, v⟩ := e
    simp only [remove, List.filter] at ih ⊢
    split
    · next h =>
      have hne : (key == k) = false := by
        simp only [beq_eq_false_iff_ne, ne_eq]
        intro heq
        simp [heq] at h
      simp [List.lookup_cons, hne, ih]
    · exact ih

theorem lookup_remove_of_ne [LawfulBEq κ] {key other : κ} (h : other ≠ key) (es : List (κ × ν)) :
    (remove key es).lookup other = es.lookup other := by
  induction es with
  | nil => rfl
  | cons e rest ih =>
    obtain ⟨k, v⟩ := e
    simp only [remove, List.filter] at ih ⊢
    split
    · simp only [List.lookup_cons]
      rw [ih]
    · next he =>
      have hk : k = key := by simpa using he
      have hne : (other == k) = false := by simp [hk, h]
      simp [List.lookup_cons, hne, ih]

theorem put_of_not_mem [LawfulBEq κ] {key : κ} {es : List (κ × ν)} (h : key ∉ es.map Prod.fst)
    (value : ν) : put key value es = es ++ [(key, value)] := by
  induction es with
  | nil => rfl
  | cons e es ih =>
    simp only [List.map_cons, List.mem_cons, not_or] at h
    have hne : (e.1 == key) = false := by simpa using fun he => h.1 he.symm
    simp [put, hne, ih h.2]

theorem mem_of_lookup [LawfulBEq κ] {key : κ} {value : ν} {es : List (κ × ν)}
    (h : es.lookup key = some value) : (key, value) ∈ es := by
  obtain ⟨pre, post, rfl, -⟩ := List.lookup_eq_some_iff.1 h
  simp

theorem mem_of_mem_put [LawfulBEq κ] {key : κ} {value : ν} {es : List (κ × ν)} {e : κ × ν}
    (h : e ∈ put key value es) : e = (key, value) ∨ e ∈ es := by
  induction es with
  | nil => exact .inl (List.mem_singleton.1 h)
  | cons d es ih =>
    rw [put] at h
    split at h
    · next hd =>
      rcases List.mem_cons.1 h with rfl | h
      · exact .inl (by rw [eq_of_beq hd])
      · exact .inr (List.mem_cons_of_mem d h)
    · rcases List.mem_cons.1 h with rfl | h
      · exact .inr List.mem_cons_self
      · rcases ih h with h | h
        · exact .inl h
        · exact .inr (List.mem_cons_of_mem d h)

theorem nodup_put [LawfulBEq κ] {key : κ} {value : ν} {es : List (κ × ν)}
    (h : (es.map Prod.fst).Nodup) : ((put key value es).map Prod.fst).Nodup := by
  induction es with
  | nil => simp [put]
  | cons d es ih =>
    rw [List.map_cons, List.nodup_cons] at h
    rw [put]
    split
    · exact List.nodup_cons.2 h
    · next hd =>
      refine List.nodup_cons.2 ⟨fun hm => ?_, ih h.2⟩
      obtain ⟨e, he, hkey⟩ := List.mem_map.1 hm
      rcases mem_of_mem_put he with rfl | he
      · exact hd (beq_iff_eq.2 hkey.symm)
      · exact h.1 (hkey ▸ List.mem_map_of_mem he)

theorem mem_of_mem_remove {key : κ} {es : List (κ × ν)} {e : κ × ν} (h : e ∈ remove key es) :
    e ∈ es :=
  (List.mem_filter.1 h).1

end MessageCatalog.Entries
