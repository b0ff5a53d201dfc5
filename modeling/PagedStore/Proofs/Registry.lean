import Mathlib.Data.List.Nodup
import PagedStore.Proofs.Pool.Orderly

/-!
The catalog is a registry in which ids and names belong to each other one to one. No id and no name
stands twice in the list of tables, whatever has been registered, so the list may be looked through in
any order. Registering a file gives it its name, takes that name from whoever had it and the former name
from the file, and changes nothing else.
-/

namespace PagedStore

namespace TableId

theorem compare_number (a b : Nat) : compare (number a) (number b) = compare a b := rfl

theorem compare_file (a b : Nat) : compare (file a) (file b) = compare a b := rfl

theorem isLE_total (a b : TableId) : ((compare a b).isLE || (compare b a).isLE) = true := by
  rw [Bool.or_eq_true]
  cases a with
  | number a =>
    cases b with
    | number b =>
      rw [compare_number, compare_number, Nat.isLE_compare, Nat.isLE_compare]
      exact Nat.le_total a b
    | file b => exact Or.inl rfl
  | file a =>
    cases b with
    | number b => exact Or.inr rfl
    | file b =>
      rw [compare_file, compare_file, Nat.isLE_compare, Nat.isLE_compare]
      exact Nat.le_total a b

theorem isLE_trans (a b c : TableId) (first : (compare a b).isLE = true)
    (second : (compare b c).isLE = true) : (compare a c).isLE = true := by
  cases a with
  | number a =>
    cases c with
    | file c => rfl
    | number c =>
      cases b with
      | file b => contradiction
      | number b =>
        rw [compare_number, Nat.isLE_compare] at first second ⊢
        exact Nat.le_trans first second
  | file a =>
    cases b with
    | number b => contradiction
    | file b =>
      cases c with
      | number c => contradiction
      | file c =>
        rw [compare_file, Nat.isLE_compare] at first second ⊢
        exact Nat.le_trans first second

theorem eq_of_compare {a b : TableId} (same : compare a b = .eq) : a = b := by
  cases a with
  | number a =>
    cases b with
    | number b => exact congrArg number (Nat.compare_eq_eq.mp same)
    | file b => contradiction
  | file a =>
    cases b with
    | number b => contradiction
    | file b => exact congrArg file (Nat.compare_eq_eq.mp same)

end TableId

namespace Catalog

variable {catalog : Catalog}

/-- The catalog after these files have been registered under these names, one after the other. -/
def ofAdditions (additions : List (HeapFile × String)) : Catalog :=
  additions.foldl (fun catalog addition => catalog.add addition.1 addition.2) empty

structure Distinct (catalog : Catalog) : Prop where
  ids : (Keyed.keys catalog.tables).Nodup
  names : (catalog.tables.map fun entry => entry.2.name).Nodup

theorem mem_tables_add {file : HeapFile} {name : String} {entry : TableId × Registration} :
    entry ∈ (catalog.add file name).tables ↔ entry = (file.table, ⟨name, file⟩) ∨
      entry ∈ catalog.tables ∧ entry.1 ≠ file.table ∧ entry.2.name ≠ name := by
  simp only [add, Keyed.put, Keyed.erase, List.mem_append, List.mem_filter, List.mem_singleton,
    decide_eq_true_eq]
  constructor
  · rintro (⟨⟨member, unnamed⟩, other⟩ | isNew)
    · exact Or.inr ⟨member, other, unnamed⟩
    · exact Or.inl isNew
  · rintro (isNew | ⟨member, other, unnamed⟩)
    · exact Or.inr isNew
    · exact Or.inl ⟨⟨member, unnamed⟩, other⟩

theorem distinct_add (distinct : catalog.Distinct) (file : HeapFile) (name : String) :
    (catalog.add file name).Distinct := by
  constructor
  · apply Keyed.nodup_keys_put
    exact distinct.ids.sublist (List.Sublist.map Prod.fst List.filter_sublist)
  · rw [add, Keyed.put, List.map_append, List.nodup_append]
    refine ⟨?_, List.nodup_singleton _, ?_⟩
    · exact distinct.names.sublist
        (List.Sublist.map _ (List.filter_sublist.trans List.filter_sublist))
    · rintro other isOther _ isNew rfl
      obtain ⟨entry, member, rfl⟩ := List.mem_map.mp isOther
      have kept := List.mem_filter.mp (List.mem_of_mem_filter member)
      exact absurd (List.mem_singleton.mp isNew) (of_decide_eq_true kept.2)

theorem distinct_ofAdditions (additions : List (HeapFile × String)) :
    (ofAdditions additions).Distinct := by
  have keeps : ∀ catalog : Catalog, catalog.Distinct → (additions.foldl
      (fun catalog addition => catalog.add addition.1 addition.2) catalog).Distinct := by
    induction additions with
    | nil => exact fun _ distinct => distinct
    | cons addition rest ih =>
      exact fun catalog distinct => ih _ (distinct_add distinct addition.1 addition.2)
  exact keeps empty ⟨List.nodup_nil, List.nodup_nil⟩

/-- What is found for an id is what stands in the list for it. -/
theorem find_eq_some_iff (distinct : catalog.Distinct) {id : TableId} {info : Registration} :
    catalog.find? id = some info ↔ (id, info) ∈ catalog.tables := by
  constructor
  · intro found
    obtain ⟨before, after, split, -⟩ := List.lookup_eq_some_iff.mp found
    rw [split]
    exact List.mem_append_right _ List.mem_cons_self
  · exact Keyed.lookup_of_mem distinct.ids

theorem registration_eq_ok_iff {id : TableId} {info : Registration} :
    catalog.registration id = .ok info ↔ catalog.find? id = some info := by
  rw [registration]
  cases catalog.find? id <;> simp

theorem registration_of_none {id : TableId} (unknown : catalog.find? id = none) :
    catalog.registration id = .error (.tableNotFound id) := by
  rw [registration, unknown]

theorem name_eq_ok_iff (distinct : catalog.Distinct) {id : TableId} {name : String} :
    catalog.name id = .ok name ↔ ∃ file, (id, (⟨name, file⟩ : Registration)) ∈ catalog.tables := by
  simp only [← find_eq_some_iff distinct, ← registration_eq_ok_iff, Catalog.name]
  cases catalog.registration id with
  | error cause => simp [Except.map]
  | ok info =>
    obtain ⟨own, file⟩ := info
    simp [Except.map]

/-- A name is found with the id that it belongs to, so the order of the list does not matter. -/
theorem named_eq_some_iff (distinct : catalog.Distinct) {name : String} {id : TableId} :
    catalog.named? name = some id ↔ catalog.name id = .ok name := by
  rw [name_eq_ok_iff distinct, named?]
  constructor
  · intro found
    obtain ⟨⟨own, info⟩, first, rfl⟩ := Option.map_eq_some_iff.mp found
    obtain rfl : info.name = name := by simpa using List.find?_some first
    exact ⟨info.file, List.mem_of_find?_eq_some first⟩
  · rintro ⟨file, member⟩
    obtain ⟨⟨own, info⟩, first⟩ := Option.isSome_iff_exists.mp
      (List.find?_isSome (p := fun entry : TableId × Registration => entry.2.name == name).mpr
        ⟨_, member, beq_self_eq_true name⟩)
    have same : info.name = name := by simpa using List.find?_some first
    have unique := List.inj_on_of_nodup_map distinct.names (List.mem_of_find?_eq_some first) member same
    rw [first, Option.map_some, unique]

theorem distinct_of_perm (distinct : catalog.Distinct) {tables : List (TableId × Registration)}
    (perm : tables.Perm catalog.tables) : Catalog.Distinct ⟨tables⟩ :=
  ⟨(perm.map _).nodup_iff.mpr distinct.ids, (perm.map _).nodup_iff.mpr distinct.names⟩

theorem mem_ids_iff {id : TableId} : id ∈ catalog.ids ↔ ∃ file, catalog.file id = .ok file := by
  rw [ids, List.mem_mergeSort, ← Keyed.isSome_lookup_iff, Catalog.file, registration, find?]
  cases catalog.tables.lookup id <;> simp [Except.map]

/-- The ids are listed in ascending order, none of them twice. -/
theorem ascending_ids (distinct : catalog.Distinct) :
    catalog.ids.Pairwise fun a b => compare a b = .lt := by
  have sorted := List.pairwise_mergeSort TableId.isLE_trans TableId.isLE_total
    (Keyed.keys catalog.tables)
  have nodup : catalog.ids.Nodup := (List.mergeSort_perm _ _).nodup_iff.mpr distinct.ids
  apply (sorted.and nodup).imp
  rintro a b ⟨isLE, differs⟩
  cases order : compare a b with
  | lt => rfl
  | eq => exact absurd (TableId.eq_of_compare order) differs
  | gt =>
    rw [order] at isLE
    contradiction

/-- Ids and names belong to each other one to one, and the ids are listed in their order. -/
structure OneToOne (catalog : Catalog) : Prop where
  name_unique : ∀ id other name, catalog.name id = .ok name → catalog.name other = .ok name →
    id = other
  named_iff : ∀ name id, catalog.named? name = some id ↔ catalog.name id = .ok name
  any_order : ∀ tables, List.Perm tables catalog.tables → ∀ name,
    (⟨tables⟩ : Catalog).named? name = catalog.named? name
  ascending : catalog.ids.Pairwise fun a b => compare a b = .lt
  length_eq : catalog.ids.length = catalog.size
  mem_iff : ∀ id, id ∈ catalog.ids ↔ ∃ file, catalog.file id = .ok file

theorem oneToOne_of_distinct (distinct : catalog.Distinct) : catalog.OneToOne where
  name_unique := by
    intro id other name named alsoNamed
    rw [← named_eq_some_iff distinct] at named alsoNamed
    exact Option.some.inj (named.symm.trans alsoNamed)
  named_iff := fun _ _ => named_eq_some_iff distinct
  any_order := by
    intro tables perm name
    have distinctToo := distinct_of_perm distinct perm
    apply Option.ext
    intro id
    rw [named_eq_some_iff distinct, named_eq_some_iff distinctToo, name_eq_ok_iff distinct,
      name_eq_ok_iff distinctToo]
    simp only [perm.mem_iff]
  ascending := ascending_ids distinct
  length_eq := by
    rw [ids, List.length_mergeSort, size]
    exact List.length_map _
  mem_iff := fun _ => mem_ids_iff

/-- The file and the name belong to each other; the former name of the file and the former table of the
name are gone, and every other table is registered as before. -/
structure Registers (before : Catalog) (file : HeapFile) (name : String) (after : Catalog) : Prop where
  registered : after.registration file.table = .ok ⟨name, file⟩
  found : after.named? name = some file.table
  renamed : ∀ former, before.name file.table = .ok former → former ≠ name →
    after.named? former = none
  replaced : ∀ former, before.named? name = some former → former ≠ file.table →
    after.registration former = .error (.tableNotFound former)
  others : ∀ other, other ≠ file.table → before.named? name ≠ some other →
    after.registration other = before.registration other

/-- After a registration an id finds the new entry, or the old one unless that has lost its name. -/
theorem find_add (distinct : catalog.Distinct) (file : HeapFile) (name : String) (id : TableId) :
    (catalog.add file name).find? id =
      if id = file.table then some ⟨name, file⟩
      else (catalog.find? id).filter fun info => info.name ≠ name := by
  have after := distinct_add distinct file name
  split
  · next same => exact (find_eq_some_iff after).mpr (mem_tables_add.mpr (Or.inl (by rw [same])))
  · next differs =>
    apply Option.ext
    intro info
    rw [find_eq_some_iff after, mem_tables_add, Option.filter_eq_some_iff, find_eq_some_iff distinct]
    constructor
    · rintro (isNew | ⟨was, -, unnamed⟩)
      · exact absurd (congrArg Prod.fst isNew) differs
      · exact ⟨was, decide_eq_true unnamed⟩
    · rintro ⟨was, unnamed⟩
      exact Or.inr ⟨was, differs, of_decide_eq_true unnamed⟩

theorem registers_add (distinct : catalog.Distinct) (file : HeapFile) (name : String) :
    Registers catalog file name (catalog.add file name) := by
  have after := distinct_add distinct file name
  have own : (catalog.add file name).find? file.table = some ⟨name, file⟩ :=
    (find_add distinct file name file.table).trans (if_pos rfl)
  refine ⟨registration_eq_ok_iff.mpr own, ?_, ?_, ?_, ?_⟩
  · rw [named_eq_some_iff after, name_eq_ok_iff after]
    exact ⟨file, (find_eq_some_iff after).mp own⟩
  · intro former wasNamed differs
    apply Option.eq_none_iff_forall_ne_some.mpr
    intro id isNamed
    obtain ⟨heap, member⟩ := (name_eq_ok_iff after).mp ((named_eq_some_iff after).mp isNamed)
    rcases mem_tables_add.mp member with isNew | ⟨was, other, -⟩
    · exact differs (congrArg (fun entry => entry.2.name) isNew)
    · -- The name was the file's own before, so nobody else can have it.
      exact other ((oneToOne_of_distinct distinct).name_unique _ _ former
        ((name_eq_ok_iff distinct).mpr ⟨heap, was⟩) wasNamed)
  · intro former wasNamed differs
    obtain ⟨heap, stood⟩ := (name_eq_ok_iff distinct).mp ((named_eq_some_iff distinct).mp wasNamed)
    apply registration_of_none
    rw [find_add distinct, if_neg differs, (find_eq_some_iff distinct).mpr stood]
    exact Option.filter_some_neg (by simp)
  · intro other differs unnamed
    rw [registration, registration, find_add distinct, if_neg differs]
    cases there : catalog.find? other with
    | none => rfl
    | some info =>
      have kept : info.name ≠ name := by
        rintro rfl
        exact unnamed ((named_eq_some_iff distinct).mpr
          ((name_eq_ok_iff distinct).mpr ⟨info.file, (find_eq_some_iff distinct).mp there⟩))
      simp only [Option.filter_some, decide_eq_true kept, if_true]

/-- Whatever files have been registered under whatever names, ids and names belong to each other one to
one, and registering one more file changes what it has to and nothing else. -/
theorem one_to_one_registry (additions : List (HeapFile × String)) (file : HeapFile) (name : String) :
    (ofAdditions additions).OneToOne ∧
      Registers (ofAdditions additions) file name (ofAdditions (additions ++ [(file, name)])) := by
  have distinct := distinct_ofAdditions additions
  have later : ofAdditions (additions ++ [(file, name)]) = (ofAdditions additions).add file name :=
    List.foldl_append
  rw [later]
  exact ⟨oneToOne_of_distinct distinct, registers_add distinct file name⟩

end Catalog

end PagedStore
