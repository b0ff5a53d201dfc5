import PagedStore.Error
import PagedStore.Id

/-!
Rows: one value per column of a schema, and the record the row is stored in if it came from a page.
The number of values is part of the type; their types are checked only when a row is stored. Main
statement: a table takes a row exactly when its column types are the table's and every value has the
type of its column.
-/

namespace PagedStore

structure Row where
  schema : Schema
  values : List Value
  arity_eq : values.length = schema.arity
  record : Option RecordId
deriving DecidableEq

namespace Row

def ofValues? (schema : Schema) (values : List Value) : Option Row :=
  if h : values.length = schema.arity then some ⟨schema, values, h, none⟩ else none

/-- Like `ofValues?`, for callers who promise the right number of values. -/
def make (schema : Schema) (values : List Value) : Except Fault Row :=
  match ofValues? schema values with
  | some row => .ok row
  | none => .error .brokenContract

def value? (row : Row) (index : Nat) : Option Value := row.values[index]?

def value (row : Row) (index : Nat) : Except Error Value :=
  match row.value? index with
  | some value => .ok value
  | none => .error (.noColumn index)

/-- Replaces the value in a column that may be missing, whatever the type of the column. -/
def set? (row : Row) (index : Nat) (value : Value) : Option Row :=
  if index < row.values.length then
    some { row with values := row.values.set index value, arity_eq := by simp [row.arity_eq] }
  else none

def stamped (row : Row) (record : Option RecordId) : Row := { row with record := record }

/-- Equality of rows: the same column types and the same values, wherever they are stored. -/
def agrees (a b : Row) : Bool := a.schema.agrees b.schema && a.values == b.values

def mismatch? : List ValueType → List Value → Option (ValueType × ValueType)
  | expected :: types, value :: values =>
      if value.type = expected then mismatch? types values else some (expected, value.type)
  | _, _ => none

def checkTypes (row : Row) : Except Error Unit :=
  match mismatch? row.schema.types row.values with
  | some (expected, found) => .error (.typeMismatch expected found)
  | none => .ok ()

/-- What a table takes: a row of an agreeing schema whose values have the types of their columns. -/
def checkAgainst (row : Row) (schema : Schema) : Except Error Unit :=
  if row.schema.agrees schema then row.checkTypes
  else .error (.schemaMismatch schema row.schema)

def WellTyped (row : Row) : Prop := row.values.map Value.type = row.schema.types

instance (row : Row) : Decidable row.WellTyped :=
  inferInstanceAs (Decidable (row.values.map Value.type = row.schema.types))

def display (row : Row) : String := "\t".intercalate (row.values.map Value.display)

theorem mismatch_eq_none_iff {types : List ValueType} {values : List Value}
    (sameLength : values.length = types.length) :
    mismatch? types values = none ↔ values.map Value.type = types := by
  induction types generalizing values with
  | nil => simp [mismatch?, List.eq_nil_of_length_eq_zero sameLength]
  | cons expected types ih =>
    cases values with
    | nil => simp at sameLength
    | cons value values =>
      have rest : values.length = types.length := by simpa using sameLength
      by_cases same : value.type = expected
      · simp [mismatch?, same, ih rest]
      · simp [mismatch?, same]

theorem checkTypes_eq_ok_iff (row : Row) : row.checkTypes = .ok () ↔ row.WellTyped := by
  have sameLength : row.values.length = row.schema.types.length := by
    simp [Schema.types, row.arity_eq, Schema.arity]
  rw [WellTyped, ← mismatch_eq_none_iff sameLength, checkTypes]
  split <;> simp_all

theorem checkAgainst_eq_ok_iff (row : Row) (schema : Schema) :
    row.checkAgainst schema = .ok () ↔ row.schema.agrees schema ∧ row.WellTyped := by
  rw [checkAgainst]
  split <;> simp_all [checkTypes_eq_ok_iff]

end Row

end PagedStore
