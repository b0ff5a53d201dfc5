import PagedStore.Row.Basic
import PagedStore.Value.Order

/-!
Conditions on a row: one column compared with a constant.
-/

namespace PagedStore

structure Predicate where
  field : Nat
  comparison : Comparison
  operand : Value
deriving DecidableEq

namespace Predicate

def display (predicate : Predicate) : String :=
  s!"f{predicate.field} {predicate.comparison.symbol} {predicate.operand.display}"

/-- Fails if the row lacks the column or its value cannot be compared with the constant. -/
def test (predicate : Predicate) (row : Row) : Except Error Bool := do
  (← row.value predicate.field).satisfies predicate.comparison predicate.operand

end Predicate

end PagedStore
