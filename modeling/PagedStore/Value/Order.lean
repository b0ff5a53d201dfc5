import PagedStore.Error
import PagedStore.Text

/-!
Comparing values. Only values of one type can be compared: integers by size and texts character by
character in the order of code points, which is also the order of their UTF-8 bytes.
-/

namespace PagedStore

inductive Comparison where
  | equal
  | notEqual
  | less
  | lessOrEqual
  | greater
  | greaterOrEqual
  | like
deriving DecidableEq, Repr

namespace Comparison

def symbol : Comparison → String
  | equal => "="
  | notEqual => "<>"
  | less => "<"
  | lessOrEqual => "<="
  | greater => ">"
  | greaterOrEqual => ">="
  | like => "LIKE"

def admits : Comparison → Ordering → Bool
  | equal, order | like, order => order.isEq
  | notEqual, order => order.isNe
  | less, order => order.isLT
  | lessOrEqual, order => order.isLE
  | greater, order => order.isGT
  | greaterOrEqual, order => order.isGE

end Comparison

namespace Value

def order : Value → Value → Except Error Ordering
  | integer a, integer b => .ok (compare a.toInt b.toInt)
  | text a, text b => .ok (compare a b)
  | a, b => .error (.typeMismatch a.type b.type)

/-- Evaluates a comparison. Among texts `like` asks whether the second occurs in the first; among
integers it is equality. -/
def satisfies (a : Value) (comparison : Comparison) (b : Value) : Except Error Bool :=
  match comparison, a, b with
  | .like, text whole, text part => .ok (Text.contains whole part)
  | comparison, a, b => (order a b).map comparison.admits

end Value

end PagedStore
