/-!
The functions that sum up the values of a column.
-/

namespace PagedStore

inductive AggregateFunction where
  | least
  | greatest
  | sum
  | average
  | count
deriving DecidableEq, Repr

def AggregateFunction.name : AggregateFunction → String
  | least => "MIN"
  | greatest => "MAX"
  | sum => "SUM"
  | average => "AVG"
  | count => "COUNT"

end PagedStore
