import PagedStore.Error

/-!
Looking columns up by name and by number, where the column may be missing.
-/

namespace PagedStore.Schema

def position (schema : Schema) (name : String) : Except Error Nat :=
  match schema.columns.findIdx? (·.name == some name) with
  | some index => .ok index
  | none => .error (.unknownColumn name)

def column (schema : Schema) (index : Nat) : Except Error Column :=
  match schema.column? index with
  | some column => .ok column
  | none => .error (.noColumn index)

end PagedStore.Schema
