import PagedStore.HeapFile
import PagedStore.Keyed

/-!
The registry of tables. A registered table has a name and a heap file, and both its name and its
table id are its own: registering takes a name away from whoever had it, and registering a table
again renames it and replaces its file.
-/

namespace PagedStore

structure Registration where
  name : String
  file : HeapFile
deriving DecidableEq

structure Catalog where
  tables : List (TableId × Registration)
deriving DecidableEq

namespace Catalog

def empty : Catalog := ⟨[]⟩

def add (catalog : Catalog) (file : HeapFile) (name : String) : Catalog :=
  let others := catalog.tables.filter fun (_, info) => info.name ≠ name
  ⟨Keyed.put file.table ⟨name, file⟩ others⟩

def find? (catalog : Catalog) (table : TableId) : Option Registration := catalog.tables.lookup table

def registration (catalog : Catalog) (table : TableId) : Except Error Registration :=
  match catalog.find? table with
  | some info => .ok info
  | none => .error (.tableNotFound table)

def file? (catalog : Catalog) (table : TableId) : Option HeapFile :=
  (catalog.find? table).map Registration.file

def file (catalog : Catalog) (table : TableId) : Except Error HeapFile :=
  (catalog.registration table).map Registration.file

def schema (catalog : Catalog) (table : TableId) : Except Error Schema :=
  (catalog.file table).map HeapFile.schema

def name (catalog : Catalog) (table : TableId) : Except Error String :=
  (catalog.registration table).map Registration.name

def named? (catalog : Catalog) (name : String) : Option TableId :=
  (catalog.tables.find? fun (_, info) => info.name == name).map Prod.fst

/-- The registered tables in ascending order. -/
def ids (catalog : Catalog) : List TableId :=
  (Keyed.keys catalog.tables).mergeSort fun a b => (compare a b).isLE

def size (catalog : Catalog) : Nat := catalog.tables.length

theorem file_of_some {catalog : Catalog} {table : TableId} {file : HeapFile}
    (registered : catalog.file? table = some file) : catalog.file table = .ok file := by
  obtain ⟨info, found, rfl⟩ := Option.map_eq_some_iff.mp registered
  rw [Catalog.file, registration, found]
  rfl

theorem file_of_none {catalog : Catalog} {table : TableId}
    (unknown : catalog.file? table = none) : catalog.file table = .error (.tableNotFound table) := by
  rw [Catalog.file, registration, Option.map_eq_none_iff.mp unknown]
  rfl

end Catalog

end PagedStore
