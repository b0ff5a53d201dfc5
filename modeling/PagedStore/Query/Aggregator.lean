import PagedStore.Action
import PagedStore.Query.AggregateFunction
import PagedStore.Row.Basic
import PagedStore.Value.Order

/-!
Summing up a column row by row, with one running result for each value of a grouping column, in the
order in which those values were first seen. Sums and counts are 32-bit words and wrap around; an
average is the wrapped sum divided by the wrapped count, toward zero. The groups are changed in place:
the count and the sum of a group move on before its result is looked at.
-/

namespace PagedStore

structure Group where
  key : Option Value
  count : Int32
  sum : Int32
  result : Value
deriving DecidableEq

structure Aggregator where
  /-- The type of the column that is summed up. -/
  input : ValueType
  function : AggregateFunction
  field : Nat
  /-- The grouping column with its type. -/
  grouping : Option (Nat × ValueType)
  groups : List Group
deriving DecidableEq

namespace AggregateFunction

def resultType? : AggregateFunction → ValueType → Option ValueType
  | sum, .text | average, .text => none
  | least, .text | greatest, .text => some .text
  | _, _ => some .integer

end AggregateFunction

namespace Group

def startInteger (function : AggregateFunction) (key : Option Value) (value : Int32) : Group :=
  { key, count := 1, sum := value
    result := .integer (if function = .count then 1 else value) }

def startText (function : AggregateFunction) (key : Option Value) (value : String) : Group :=
  { key, count := 1, sum := 0
    result := if function = .count then .integer 1 else .text value }

/-- The next result of a group whose count and sum have moved on. The count wraps, so an average can
come to a count of zero. -/
def nextInteger (group : Group) (function : AggregateFunction) (current value : Int32) :
    Except Fault Int32 :=
  match function with
  | .least => .ok (if current.toInt ≤ value.toInt then current else value)
  | .greatest => .ok (if value.toInt ≤ current.toInt then current else value)
  | .sum => .ok (current + value)
  | .average => if group.count = 0 then .error .dividedByZero else .ok (group.sum / group.count)
  | .count => .ok group.count

/-- Merges an integer: the count and the sum move on before the result is looked at, and the next result
is set last. -/
def mergeInteger (function : AggregateFunction) (value : Int32) : Action Group Unit := do
  modify fun group => { group with count := group.count + 1, sum := group.sum + value }
  let group ← get
  match group.result with
  | .integer current =>
      let result ← Action.ofFault (group.nextInteger function current value)
      modify fun group => { group with result := .integer result }
  | result => Action.fail (.typeMismatch .integer result.type)

def mergeText (function : AggregateFunction) (value : String) : Action Group Unit := do
  modify fun group => { group with count := group.count + 1 }
  modify fun group =>
    { group with
      result := match function, group.result with
        | .count, _ => .integer group.count
        | .least, .text current => .text (if value < current then value else current)
        | .greatest, .text current => .text (if current < value then value else current)
        | _, result => result }

def values (group : Group) : List Value := group.key.toList ++ [group.result]

/-- A group with an integer for its result merges an integer, unless an average is over a count that has
become zero; then the count and the sum have moved on already. -/
theorem mergeInteger_of_integer {function : AggregateFunction} {group : Group} {current : Int32}
    (result : group.result = .integer current) (number : Int32) :
    mergeInteger function number group =
      let moved : Group := { group with count := group.count + 1, sum := group.sum + number }
      match moved.nextInteger function current number with
      | .ok next => .ok () { moved with result := .integer next }
      | .error fault => .error fault moved := by
  simp only [mergeInteger, Action.bind_apply, Action.modify_apply, Action.get_apply, result,
    Action.ofFault_apply]
  cases nextInteger _ function current number <;> rfl

end Group

namespace Aggregator

/-- An aggregator without groups. Sums and averages of texts are refused. -/
def start (input : ValueType) (function : AggregateFunction) (field : Nat)
    (grouping : Option (Nat × ValueType)) : Except Error Aggregator :=
  if (function.resultType? input).isSome then .ok { input, function, field, grouping, groups := [] }
  else .error (.unsupportedAggregate function input)

def resultType (aggregator : Aggregator) : ValueType :=
  (aggregator.function.resultType? aggregator.input).getD .integer

def schema (aggregator : Aggregator) : Schema :=
  let result := Schema.single (.unnamed aggregator.resultType)
  match aggregator.grouping with
  | some (_, type) => (Schema.single (.unnamed type)).append result
  | none => result

def key (aggregator : Aggregator) (row : Row) : Except Error (Option Value) :=
  match aggregator.grouping with
  | some (field, _) => (row.value field).map some
  | none => .ok none

/-- Puts the changed group in the place of the first one with its key, or at the end. -/
def place (groups : List Group) (group : Group) : List Group :=
  match groups with
  | [] => [group]
  | first :: rest => if first.key = group.key then group :: rest else first :: place rest group

def update (key : Option Value) (new : Group) (change : Action Group Unit) :
    Action Aggregator Unit := do
  match (← get).groups.find? (·.key = key) with
  | some group =>
      Action.within (fun _ => group)
        (fun changed aggregator => { aggregator with groups := place aggregator.groups changed })
        change
  | none => modify fun aggregator => { aggregator with groups := place aggregator.groups new }

def mergeValue (key : Option Value) (value : Value) : Action Aggregator Unit := do
  let aggregator ← get
  match aggregator.input, value with
  | .integer, .integer number =>
      update key (.startInteger aggregator.function key number)
        (Group.mergeInteger aggregator.function number)
  | .text, .text content =>
      update key (.startText aggregator.function key content)
        (Group.mergeText aggregator.function content)
  | expected, found => Action.fail (.typeMismatch expected found.type)

def merge (row : Row) : Action Aggregator Unit := do
  let aggregator ← get
  let key ← Action.ofExcept (aggregator.key row)
  let value ← Action.ofExcept (row.value aggregator.field)
  mergeValue key value

def add (aggregator : Aggregator) (row : Row) : Except Fault Aggregator :=
  match merge row aggregator with
  | .ok _ merged => .ok merged
  | .error fault _ => .error fault

def clear (aggregator : Aggregator) : Aggregator := { aggregator with groups := [] }

def results (aggregator : Aggregator) : List (List Value) := aggregator.groups.map Group.values

variable {aggregator : Aggregator} {row : Row} {key : Option Value} {value : Value}

/-- The group with a known key is changed in place; if the change fails, what it did by then is kept. -/
theorem update_known {group : Group} (known : aggregator.groups.find? (·.key = key) = some group)
    (new : Group) (change : Action Group Unit) :
    update key new change aggregator = match change group with
      | .ok _ changed =>
          .ok () { aggregator with groups := place aggregator.groups changed }
      | .error fault changed =>
          .error fault { aggregator with groups := place aggregator.groups changed } := by
  simp only [update, Action.bind_apply, Action.get_apply, known, Action.within]
  cases change group <;> rfl

theorem update_unknown (unknown : aggregator.groups.find? (·.key = key) = none) (new : Group)
    (change : Action Group Unit) :
    update key new change aggregator =
      .ok () { aggregator with groups := place aggregator.groups new } := by
  simp only [update, Action.bind_apply, Action.get_apply, unknown, Action.modify_apply]

theorem merge_valued (keyed : aggregator.key row = .ok key)
    (valued : row.value aggregator.field = .ok value) :
    merge row aggregator = mergeValue key value aggregator := by
  simp only [merge, Action.bind_apply, Action.get_apply, Action.ofExcept_apply, keyed, valued]

theorem mergeValue_integer (input : aggregator.input = .integer) (key : Option Value)
    (number : Int32) :
    mergeValue key (.integer number) aggregator =
      update key (.startInteger aggregator.function key number)
        (Group.mergeInteger aggregator.function number) aggregator := by
  simp only [mergeValue, Action.bind_apply, Action.get_apply, input]

theorem mergeValue_text (input : aggregator.input = .text) (key : Option Value) (content : String) :
    mergeValue key (.text content) aggregator =
      update key (.startText aggregator.function key content)
        (Group.mergeText aggregator.function content) aggregator := by
  simp only [mergeValue, Action.bind_apply, Action.get_apply, input]

end Aggregator

end PagedStore
