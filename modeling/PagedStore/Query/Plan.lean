import PagedStore.Catalog
import PagedStore.Query.Aggregator
import PagedStore.Query.Predicate
import PagedStore.Schema.Fields

/-!
Query plans: trees whose leaves are lists of rows and tables and whose inner nodes select, store,
delete and sum up the rows of their child. A plan is built against a catalog and checked as it is
built, and it knows the columns of its rows.
-/

namespace PagedStore

structure ScanSource where
  file : HeapFile
  tableName : String
  «alias» : Option String
deriving DecidableEq

structure Aggregation where
  aggregator : Aggregator
  schema : Schema
deriving DecidableEq

inductive Plan where
  | values (schema : Schema) (rows : List Row)
  | scan (source : ScanSource)
  | filter (predicate : Predicate) (child : Plan)
  | insert (transaction : Transaction) (table : TableId) (child : Plan)
  | delete (transaction : Transaction) (child : Plan)
  | aggregate (aggregation : Aggregation) (child : Plan)

/-- The columns of a scan carry the alias, or `null`, in front of their names. -/
def ScanSource.schema (source : ScanSource) : Schema := source.file.schema.aliased source.«alias»

namespace Plan

def countSchema : Schema := Schema.single (.unnamed .integer)

def schema : Plan → Schema
  | values schema _ => schema
  | scan source => source.schema
  | filter _ child => child.schema
  | insert _ _ _ | delete _ _ => countSchema
  | aggregate aggregation _ => aggregation.schema

def scanAs (catalog : Catalog) (table : TableId) (name : Option String) : Except Error Plan := do
  let info ← catalog.registration table
  pure (scan ⟨info.file, info.name, name⟩)

def scanByName (catalog : Catalog) (table : TableId) : Except Error Plan := do
  scanAs catalog table (some (← catalog.name table))

def insertInto (catalog : Catalog) (transaction : Transaction) (table : TableId) (child : Plan) :
    Except Error Plan := do
  let expected ← catalog.schema table
  if expected.agrees child.schema then pure (insert transaction table child)
  else .error (.schemaMismatch expected child.schema)

/-- Sums up a column of the child, with one result for each value of a grouping column if there is
one. The results are headed by the name of the grouping column and by the function applied to the
name of the other. -/
def aggregateOver (child : Plan) (field : Nat) (grouping : Option Nat)
    (function : AggregateFunction) : Except Error Plan := do
  let input ← child.schema.column field
  let key ← grouping.mapM child.schema.column
  let aggregator ← Aggregator.start input.type function field
    (grouping.bind fun index => key.map fun column => (index, column.type))
  let result := Schema.single (.named s!"{function.name}({input.label})" aggregator.resultType)
  let schema := match key with
    | some column => (Schema.single column).append result
    | none => result
  pure (aggregate ⟨aggregator, schema⟩ child)

end Plan

end PagedStore
