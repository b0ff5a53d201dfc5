/-!
Lists of keyed entries, seen through `lookup`. Main statements: erasing a key hides exactly that key,
putting an entry changes what is found at its key alone, and neither makes a key appear twice.
-/

namespace PagedStore.Keyed

variable {κ α : Type} [DecidableEq κ]

def keys (entries : List (κ × α)) : List κ := entries.map Prod.fst

def erase (key : κ) (entries : List (κ × α)) : List (κ × α) := entries.filter (·.1 ≠ key)

/-- Puts the entry behind all others, in the place of any with the same key. -/
def put (key : κ) (value : α) (entries : List (κ × α)) : List (κ × α) :=
  erase key entries ++ [(key, value)]

def alter (key : κ) (change : α → α) (entries : List (κ × α)) : List (κ × α) :=
  entries.map fun entry => if entry.1 = key then (entry.1, change entry.2) else entry

theorem lookup_cons_eq (key head : κ) (value : α) (rest : List (κ × α)) :
    List.lookup key ((head, value) :: rest) =
      if key = head then some value else rest.lookup key := by
  by_cases same : key = head
  · simp [same]
  · have differs : (key == head) = false := by simpa using same
    rw [List.lookup_cons, differs, if_neg same]

theorem lookup_erase (key other : κ) (entries : List (κ × α)) :
    (erase key entries).lookup other = if other = key then none else entries.lookup other := by
  induction entries with
  | nil => simp [erase]
  | cons entry rest ih =>
    obtain ⟨head, value⟩ := entry
    rw [erase] at ih
    rw [erase, List.filter_cons, lookup_cons_eq]
    by_cases same : head = key
    · rw [if_neg (by simpa using same), ih, same]
      by_cases found : other = key <;> simp [found]
    · rw [if_pos (by simpa using same), lookup_cons_eq, ih]
      by_cases found : other = head
      · simp [found, same]
      · simp [found]

theorem lookup_append (left right : List (κ × α)) (key : κ) :
    (left ++ right).lookup key = (left.lookup key).or (right.lookup key) := by
  induction left with
  | nil => simp
  | cons entry rest ih =>
    obtain ⟨head, value⟩ := entry
    rw [List.cons_append, lookup_cons_eq, lookup_cons_eq, ih]
    by_cases same : key = head <;> simp [same]

theorem lookup_put (key other : κ) (value : α) (entries : List (κ × α)) :
    (put key value entries).lookup other =
      if other = key then some value else entries.lookup other := by
  rw [put, lookup_append, lookup_erase, lookup_cons_eq]
  by_cases same : other = key <;> simp [same]

theorem lookup_alter (key other : κ) (change : α → α) (entries : List (κ × α)) :
    (alter key change entries).lookup other =
      if other = key then (entries.lookup other).map change else entries.lookup other := by
  induction entries with
  | nil => simp [alter]
  | cons entry rest ih =>
    obtain ⟨head, value⟩ := entry
    rw [alter] at ih
    rw [alter, List.map_cons, lookup_cons_eq]
    by_cases same : head = key
    · rw [if_pos same, lookup_cons_eq, ih, same]
      by_cases found : other = key <;> simp [found]
    · rw [if_neg same, lookup_cons_eq, ih]
      by_cases found : other = head
      · simp [found, same]
      · simp [found]

theorem isSome_lookup_iff (key : κ) (entries : List (κ × α)) :
    (entries.lookup key).isSome ↔ key ∈ keys entries := by
  induction entries with
  | nil => simp [keys]
  | cons entry rest ih =>
    obtain ⟨head, value⟩ := entry
    rw [keys] at ih
    rw [lookup_cons_eq, keys, List.map_cons, List.mem_cons]
    by_cases same : key = head
    · simp [same]
    · rw [if_neg same, ih]
      simp [same]

theorem keys_alter (key : κ) (change : α → α) (entries : List (κ × α)) :
    keys (alter key change entries) = keys entries := by
  simp only [keys, alter, List.map_map]
  congr 1
  funext entry
  by_cases same : entry.1 = key <;> simp [same]

theorem mem_keys_erase (key other : κ) (entries : List (κ × α)) :
    other ∈ keys (erase key entries) ↔ other ∈ keys entries ∧ other ≠ key := by
  simp only [keys, erase, List.mem_map, List.mem_filter, decide_eq_true_eq]
  constructor
  · rintro ⟨entry, ⟨member, differs⟩, rfl⟩
    exact ⟨⟨entry, member, rfl⟩, differs⟩
  · rintro ⟨⟨entry, member, rfl⟩, differs⟩
    exact ⟨entry, ⟨member, differs⟩, rfl⟩

theorem mem_keys_put (key other : κ) (value : α) (entries : List (κ × α)) :
    other ∈ keys (put key value entries) ↔ other = key ∨ other ∈ keys entries := by
  have split : keys (put key value entries) = keys (erase key entries) ++ [key] := by
    simp [keys, put]
  rw [split, List.mem_append, mem_keys_erase, List.mem_singleton]
  by_cases same : other = key <;> simp [same]

theorem nodup_keys_erase (key : κ) {entries : List (κ × α)} (nodup : (keys entries).Nodup) :
    (keys (erase key entries)).Nodup :=
  nodup.sublist (List.Sublist.map Prod.fst List.filter_sublist)

theorem nodup_keys_put (key : κ) (value : α) {entries : List (κ × α)}
    (nodup : (keys entries).Nodup) : (keys (put key value entries)).Nodup := by
  have split : keys (put key value entries) = keys (erase key entries) ++ [key] := by
    simp [keys, put]
  rw [split, List.nodup_append]
  refine ⟨nodup_keys_erase key nodup, by simp, ?_⟩
  intro other member last isLast
  rw [List.mem_singleton.mp isLast]
  exact ((mem_keys_erase key other entries).mp member).2

theorem alter_alter (key : κ) (first second : α → α) (entries : List (κ × α)) :
    alter key second (alter key first entries) =
      alter key (fun value => second (first value)) entries := by
  rw [alter, alter, alter, List.map_map]
  apply List.map_congr_left
  intro entry _
  by_cases same : entry.1 = key <;> simp [same]

/-- Changes at different keys can be made in either order. -/
theorem alter_comm {key other : κ} (differs : key ≠ other) (first second : α → α)
    (entries : List (κ × α)) :
    alter key first (alter other second entries) =
      alter other second (alter key first entries) := by
  rw [alter, alter, alter, alter, List.map_map, List.map_map]
  apply List.map_congr_left
  intro entry _
  by_cases same : entry.1 = key
  · simp [same, differs]
  · by_cases sameOther : entry.1 = other <;> simp [same, sameOther, Ne.symm differs]

theorem lookup_of_mem {key : κ} {value : α} {entries : List (κ × α)}
    (nodup : (keys entries).Nodup) (member : (key, value) ∈ entries) :
    entries.lookup key = some value := by
  induction entries with
  | nil => contradiction
  | cons entry rest ih =>
    obtain ⟨head, first⟩ := entry
    rw [keys, List.map_cons, List.nodup_cons] at nodup
    rw [lookup_cons_eq]
    rcases List.mem_cons.mp member with same | later
    · obtain ⟨rfl, rfl⟩ := Prod.mk.inj same
      rw [if_pos rfl]
    · have differs : key ≠ head := by
        rintro rfl
        exact nodup.1 (List.mem_map.mpr ⟨_, later, rfl⟩)
      rw [if_neg differs]
      exact ih nodup.2 later

end PagedStore.Keyed
