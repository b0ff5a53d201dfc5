import PagedStore.Value.Basic

/-!
Schemas: non-empty lists of typed columns, some of them without a name. Two schemas describe the
same rows when their column types agree; names are for the reader.
-/

namespace PagedStore

structure Column where
  name : Option String
  type : ValueType
deriving DecidableEq

namespace Column

def named (name : String) (type : ValueType) : Column := ⟨some name, type⟩

def unnamed (type : ValueType) : Column := ⟨none, type⟩

def width (column : Column) : Nat := column.type.width

def label (column : Column) : String := column.name.getD "null"

end Column

structure Schema where
  columns : List Column
  nonempty : columns ≠ []
deriving DecidableEq

namespace Schema

def ofColumns? (columns : List Column) : Option Schema :=
  if h : columns ≠ [] then some ⟨columns, h⟩ else none

def ofTypes? (types : List ValueType) : Option Schema := ofColumns? (types.map .unnamed)

def single (column : Column) : Schema := ⟨[column], List.cons_ne_nil column []⟩

def types (schema : Schema) : List ValueType := schema.columns.map Column.type

/-- Whether the schemas have the same types in the same order, whatever the names. -/
def agrees (a b : Schema) : Bool := a.types == b.types

def arity (schema : Schema) : Nat := schema.columns.length

def width (schema : Schema) : Nat :=
  schema.columns.foldr (fun column total => column.width + total) 0

def column? (schema : Schema) (index : Nat) : Option Column := schema.columns[index]?

def append (a b : Schema) : Schema :=
  ⟨a.columns ++ b.columns, fun h => a.nonempty (List.append_eq_nil_iff.mp h).1⟩

/-- Puts a name and a dot before each column name; a missing one reads `null`. -/
def aliased (schema : Schema) (table : Option String) : Schema :=
  ⟨schema.columns.map fun column =>
      .named (table.getD "null" ++ "." ++ column.label) column.type,
    fun h => schema.nonempty (List.map_eq_nil_iff.mp h)⟩

def display (schema : Schema) : String :=
  ", ".intercalate (schema.columns.map fun column => s!"{column.label}({column.type.name})")

theorem agrees_iff (a b : Schema) : a.agrees b ↔ a.types = b.types := by
  rw [agrees, beq_iff_eq]

theorem width_eq_sum_types (schema : Schema) :
    schema.width = schema.types.foldr (fun type total => type.width + total) 0 := by
  rw [width, types, List.foldr_map]
  rfl

theorem length_types (schema : Schema) : schema.types.length = schema.arity :=
  List.length_map ..

end Schema

end PagedStore
