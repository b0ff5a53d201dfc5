import Mathlib.Data.Set.List
import PagedStore.Proofs.Copy.Selection
import PagedStore.Proofs.Query.Summaries
import PagedStore.Proofs.Scan.Listing

/-!
The list that a query denotes. A plan that only reads denotes a list of lines that can be worked out
from the tables without opening anything: the lines of a list or of a table, those of the child that
pass the test, or one line for each key of the child with what the values of that key are summed up to.
Every line has one value for each column of the plan, of the type of the column.
-/

namespace PagedStore

def Predicate.passes (predicate : Predicate) (values : List Value) : Bool :=
  match predicate.testValues values with
  | .ok passed => passed
  | .error _ => false

def Aggregator.taken? (aggregator : Aggregator) (values : List Value) : Option Aggregator.Taken :=
  match aggregator.grouping with
  | none => values[aggregator.field]?.map fun value => (none, value)
  | some (index, _) => values[index]?.bind fun key =>
      values[aggregator.field]?.map fun value => (some key, value)

def Aggregation.taken (aggregation : Aggregation) (lines : List Line) : List Aggregator.Taken :=
  lines.filterMap fun line => aggregation.aggregator.taken? line.values

def Aggregation.after (aggregation : Aggregation) (lines : List Line) : Aggregator :=
  { aggregation.aggregator with
    groups := Aggregator.groupsOf aggregation.aggregator.input aggregation.aggregator.function
      (aggregation.taken lines) }

/-- One line for each key, in the order in which the keys are first seen. -/
def Aggregation.lines (aggregation : Aggregation) (lines : List Line) : List Line :=
  (aggregation.after lines).results.map fun values => ⟨aggregation.schema, values, none⟩

structure Aggregation.Over (aggregation : Aggregation) (schema : Schema) : Prop where
  groups_eq : aggregation.aggregator.groups = []
  applies : (aggregation.aggregator.function.resultType? aggregation.aggregator.input).isSome
  summed : ∃ column, schema.column aggregation.aggregator.field = .ok column ∧
    column.type = aggregation.aggregator.input
  grouped : ∀ index type, aggregation.aggregator.grouping = some (index, type) →
    ∃ column, schema.column index = .ok column ∧ column.type = type
  types_eq : aggregation.schema.types =
    (aggregation.aggregator.grouping.map Prod.snd).toList ++ [aggregation.aggregator.resultType]

theorem Schema.exists_value {schema : Schema} {values : List Value}
    (typed : values.map Value.type = schema.types) {index : Nat} {column : Column}
    (there : schema.column index = .ok column) :
    ∃ value, values[index]? = some value ∧ value.type = column.type := by
  unfold Schema.column at there
  split at there
  · next found isColumn =>
    obtain rfl : found = column := Except.ok.inj there
    have type : (values.map Value.type)[index]? = some found.type := by
      rw [typed, types, List.getElem?_map]
      exact congrArg (Option.map Column.type) isColumn
    rw [List.getElem?_map, Option.map_eq_some_iff] at type
    exact type
  · contradiction

theorem Schema.length_of_types {schema : Schema} {values : List Value}
    (typed : values.map Value.type = schema.types) : values.length = schema.arity := by
  rw [← length_types, ← typed, List.length_map]

theorem Row.exists_made {schema : Schema} {lists : List (List Value)}
    (fits : ∀ values ∈ lists, values.length = schema.arity) :
    ∃ rows, lists.mapM (make schema) = .ok rows ∧
      rows.map line = lists.map fun values => ⟨schema, values, none⟩ := by
  induction lists with
  | nil => exact ⟨[], rfl, rfl⟩
  | cons values others ih =>
    have length := fits values List.mem_cons_self
    obtain ⟨rows, made, isLines⟩ := ih fun other member => fits other (List.mem_cons_of_mem _ member)
    have first : make schema values = .ok ⟨schema, values, length, none⟩ := by
      rw [make, ofValues?, dif_pos length]
    refine ⟨⟨schema, values, length, none⟩ :: rows, ?_, ?_⟩
    · rw [Error.mapM_eq_ok_iff] at made ⊢
      rw [List.map_cons, List.map_cons, first, made]
    · rw [List.map_cons, List.map_cons, isLines]
      rfl

theorem Value.exists_satisfies {left right : Value} (same : left.type = right.type)
    (comparison : Comparison) : ∃ passed, left.satisfies comparison right = .ok passed := by
  cases left <;> cases right <;> first | contradiction | (cases comparison <;> exact ⟨_, rfl⟩)

namespace Predicate

/-- A test of a column that is there, against a value of its type, has an answer. -/
theorem testValues_eq {predicate : Predicate} {schema : Schema} {column : Column}
    (there : schema.column predicate.field = .ok column)
    (comparable : predicate.operand.type = column.type) {values : List Value}
    (typed : values.map Value.type = schema.types) :
    predicate.testValues values = .ok (predicate.passes values) := by
  obtain ⟨value, isValue, type⟩ := Schema.exists_value typed there
  obtain ⟨passed, answered⟩ :=
    Value.exists_satisfies (type.trans comparable.symm) predicate.comparison
  have tested : predicate.testValues values = .ok passed := by
    rw [testValues, isValue]
    exact answered
  rw [passes, tested]

end Predicate

namespace Group

theorem type_result_ofValues (input : ValueType) (function : AggregateFunction)
    (key : Option Value) (values : List Value) :
    (ofValues input function key values).result.type =
      (function.resultType? input).getD .integer := by
  cases input <;> cases function <;> rfl

end Group

namespace Aggregation

variable {aggregation : Aggregation} {schema : Schema}

theorem exists_taken (suits : aggregation.Over schema) {values : List Value}
    (typed : values.map Value.type = schema.types) :
    ∃ key value, aggregation.aggregator.taken? values = some (key, value) ∧
      value.type = aggregation.aggregator.input ∧
      key.map Value.type = aggregation.aggregator.grouping.map Prod.snd := by
  obtain ⟨column, there, input⟩ := suits.summed
  obtain ⟨value, isValue, type⟩ := Schema.exists_value typed there
  cases grouping : aggregation.aggregator.grouping with
  | none =>
    refine ⟨none, value, ?_, type.trans input, rfl⟩
    rw [Aggregator.taken?, grouping, isValue]
    rfl
  | some grouped =>
    obtain ⟨index, keyType⟩ := grouped
    obtain ⟨keyColumn, isColumn, ofType⟩ := suits.grouped index keyType grouping
    obtain ⟨key, isKey, typeOfKey⟩ := Schema.exists_value typed isColumn
    refine ⟨some key, value, ?_, type.trans input, ?_⟩
    · rw [Aggregator.taken?, grouping, isValue]
      dsimp only
      rw [isKey]
      rfl
    · rw [Option.map_some, typeOfKey, ofType, Option.map_some]

/-- What is taken from a row is its key and its value. -/
theorem taken_of_row {aggregator : Aggregator} {row : Row} {key : Option Value} {value : Value}
    (isTaken : aggregator.taken? row.values = some (key, value)) :
    aggregator.key row = .ok key ∧ row.value aggregator.field = .ok value := by
  unfold Aggregator.taken? at isTaken
  unfold Aggregator.key Row.value Row.value?
  cases grouping : aggregator.grouping with
  | none =>
    rw [grouping] at isTaken
    obtain ⟨found, isFound, same⟩ := Option.map_eq_some_iff.mp isTaken
    obtain ⟨rfl, rfl⟩ := Prod.mk.inj same
    rw [isFound]
    exact ⟨rfl, rfl⟩
  | some grouped =>
    rw [grouping] at isTaken
    obtain ⟨foundKey, isKey, there⟩ := Option.bind_eq_some_iff.mp isTaken
    obtain ⟨found, isFound, same⟩ := Option.map_eq_some_iff.mp there
    obtain ⟨rfl, rfl⟩ := Prod.mk.inj same
    dsimp only
    rw [isKey, isFound]
    exact ⟨rfl, rfl⟩

theorem types_of_taken (suits : aggregation.Over schema) {lines : List Line}
    (typed : ∀ line ∈ lines, line.values.map Value.type = schema.types)
    {entry : Aggregator.Taken} (member : entry ∈ aggregation.taken lines) :
    entry.2.type = aggregation.aggregator.input ∧
      entry.1.map Value.type = aggregation.aggregator.grouping.map Prod.snd := by
  obtain ⟨line, isLine, isTaken⟩ := List.mem_filterMap.mp member
  obtain ⟨key, value, expected, type, keyType⟩ := exists_taken suits (typed line isLine)
  obtain rfl := Option.some.inj (expected.symm.trans isTaken)
  exact ⟨type, keyType⟩

theorem types_of_lines (suits : aggregation.Over schema) {lines : List Line}
    (typed : ∀ line ∈ lines, line.values.map Value.type = schema.types) :
    ∀ line ∈ aggregation.lines lines, line.values.map Value.type = aggregation.schema.types := by
  intro line member
  obtain ⟨values, isResult, rfl⟩ := List.mem_map.mp member
  obtain ⟨group, isGroup, rfl⟩ := List.mem_map.mp isResult
  obtain ⟨key, isKey, rfl⟩ := List.mem_map.mp isGroup
  obtain ⟨value, isTaken⟩ := Aggregator.mem_keysOf_iff.mp isKey
  have keyType : key.toList.map Value.type =
      (aggregation.aggregator.grouping.map Prod.snd).toList := by
    rw [← (types_of_taken suits typed isTaken).2]
    cases key <;> rfl
  rw [suits.types_eq, Group.values, Group.key_ofValues, List.map_append, keyType,
    List.map_singleton, Group.type_result_ofValues]
  rfl

theorem length_lines_le (aggregation : Aggregation) (lines : List Line) :
    (aggregation.lines lines).length ≤ lines.length := by
  have fewer := List.length_filterMap_le
    (fun line : Line => aggregation.aggregator.taken? line.values) lines
  rw [Aggregation.lines, List.length_map, Aggregator.results, List.length_map]
  exact Nat.le_trans (Aggregator.length_groupsOf_le ..) fewer

/-- The results have the columns of the aggregation, so they can be made into rows. -/
theorem exists_rows (suits : aggregation.Over schema) {lines : List Line}
    (typed : ∀ line ∈ lines, line.values.map Value.type = schema.types) :
    ∃ rows, (aggregation.after lines).results.mapM (Row.make aggregation.schema) = .ok rows ∧
      rows.map Row.line = aggregation.lines lines := by
  apply Row.exists_made
  intro values member
  exact Schema.length_of_types (types_of_lines suits typed _ (List.mem_map_of_mem member))

theorem ofNat_succ_ne_zero {count : Nat} (short : count + 1 < 2 ^ 31) :
    Int32.ofNat (count + 1) ≠ 0 := by
  intro equal
  have same := congrArg Int32.toInt equal
  rw [Int32.toInt_ofNat_of_lt short, Int32.toInt_zero] at same
  omega

theorem taken_concat {lines : List Line} {line : Line} {entry : Aggregator.Taken}
    (isTaken : aggregation.aggregator.taken? line.values = some entry) :
    aggregation.taken (lines ++ [line]) = aggregation.taken lines ++ [entry] := by
  simp [taken, isTaken]

/-- As long as the rows can be counted, the aggregator takes the next one. -/
theorem add_after (suits : aggregation.Over schema) {seen : List Line} {row : Row}
    (typed : ∀ line ∈ seen ++ [row.line], line.values.map Value.type = schema.types)
    (short : (seen ++ [row.line]).length < 2 ^ 31) :
    (aggregation.after seen).add row = .ok (aggregation.after (seen ++ [row.line])) := by
  have ofRow : row.values.map Value.type = schema.types :=
    typed row.line (List.mem_append_right _ List.mem_cons_self)
  obtain ⟨key, value, isTaken, type, -⟩ := exists_taken suits ofRow
  obtain ⟨keyed, valued⟩ := taken_of_row isTaken
  have ofTaken : ∀ entry ∈ aggregation.taken seen,
      entry.2.type = aggregation.aggregator.input := fun entry member =>
    (types_of_taken suits (fun line isLine => typed line (List.mem_append_left _ isLine)) member).1
  have counted : Int32.ofNat ((Aggregator.valuesOf (aggregation.taken seen) key).length + 1) ≠ 0 := by
    have fewValues := Aggregator.length_valuesOf_le (aggregation.taken seen) key
    have fewTaken := List.length_filterMap_le
      (fun line : Line => aggregation.aggregator.taken? line.values) seen
    rw [List.length_append, List.length_singleton] at short
    rw [taken] at fewValues ⊢
    exact ofNat_succ_ne_zero (by omega)
  have groups : (aggregation.after seen).groups = Aggregator.groupsOf (aggregation.after seen).input
      (aggregation.after seen).function (aggregation.taken seen) := rfl
  have keyedNow : (aggregation.after seen).key row = .ok key := keyed
  have merged : Aggregator.merge row (aggregation.after seen) =
      .ok () (aggregation.after (seen ++ [row.line])) := by
    rw [Aggregator.merge_valued keyedNow valued,
      Aggregator.mergeValue_eq groups ofTaken suits.applies key type fun _ => counted, after, after,
      taken_concat isTaken]
  rw [Aggregator.add, merged]

end Aggregation

/-- The lines of a table, page after page over its whole file. -/
def Store.table {μ : Type} (store : Store μ) (source : ScanSource) : List Line :=
  source.lines store.onPage (source.file.extent store.disk * source.file.slotCount) 0

namespace Plan

variable {μ : Type}

/-- The list that a plan denotes. Only plans that read denote one. -/
def lines (store : Store μ) : Plan → List Line
  | values _ rows => rows.map Row.line
  | scan source => store.table source
  | filter predicate child =>
      (child.lines store).filter fun line => predicate.passes line.values
  | aggregate aggregation child => aggregation.lines (child.lines store)
  | insert _ _ _ | delete _ _ => []

/-- The plan has been built against the catalog and only reads. The rows of a list have the types of
its columns, and a filter compares a column that is there with a value of its type. -/
def Reads (catalog : Catalog) : Plan → Prop
  | values schema rows => ∀ row ∈ rows, row.values.map Value.type = schema.types
  | scan source => ∃ table, scanAs catalog table source.«alias» = .ok (scan source)
  | filter predicate child => child.Reads catalog ∧
      ∃ column, child.schema.column predicate.field = .ok column ∧
        predicate.operand.type = column.type
  | aggregate aggregation child => child.Reads catalog ∧
      ∃ field grouping function,
        aggregateOver child field grouping function = .ok (aggregate aggregation child)
  | insert _ _ _ | delete _ _ => False

def Within (store : Store μ) (bound : Nat) : Plan → Prop
  | values _ rows => rows.length < bound
  | scan source => (store.table source).length < bound
  | filter _ child | aggregate _ child | insert _ _ child | delete _ child =>
      child.Within store bound

theorem over_of_aggregateOver {child : Plan} {field : Nat} {grouping : Option Nat}
    {function : AggregateFunction} {aggregation : Aggregation}
    (built : aggregateOver child field grouping function = .ok (aggregate aggregation child)) :
    aggregation.Over child.schema := by
  unfold aggregateOver at built
  obtain ⟨input, summed, built⟩ := Error.exists_of_bind built
  obtain ⟨key, grouped, built⟩ := Error.exists_of_bind built
  obtain ⟨aggregator, started, built⟩ := Error.exists_of_bind built
  unfold Aggregator.start at started
  split at started
  · next applies =>
    obtain rfl := Except.ok.inj started
    cases built
    cases grouping with
    | none =>
      obtain rfl : none = key := Except.ok.inj grouped
      exact ⟨rfl, applies, ⟨input, summed, rfl⟩, fun _ _ absent => by contradiction, rfl⟩
    | some index =>
      obtain ⟨column, isColumn, built⟩ := Error.exists_of_bind grouped
      obtain rfl : some column = key := Except.ok.inj built
      refine ⟨rfl, applies, ⟨input, summed, rfl⟩, ?_, rfl⟩
      intro other type same
      obtain ⟨rfl, rfl⟩ := Prod.mk.inj (Option.some.inj same)
      exact ⟨column, isColumn, rfl⟩
  · contradiction

end Plan

namespace Store

variable {μ : Type} {store : Store μ}

/-- What a reader finds in a cell has the types of the table's columns. -/
theorem types_of_cell (coherent : store.Coherent) {file : HeapFile}
    (registered : store.catalog.file? file.table = some file) {index : Nat} {values : List Value}
    (there : file.cell store.current index = some values) :
    values.map Value.type = file.schema.types := by
  have small := HeapFile.small_of_cell (there ▸ Option.some_ne_none values)
  rw [HeapFile.cell_of_small small] at there
  obtain ⟨contents, found, stored⟩ := Option.bind_eq_some_iff.mp there
  have registeredPage : store.catalog.file? (file.page (index / file.slotCount)).table = some file :=
    registered
  obtain ⟨page, owns, rfl⟩ := exists_owned_of_current coherent registeredPage found
  obtain ⟨row, isRow, rfl⟩ := Option.map_eq_some_iff.mp stored
  have held := owns.formed.holds _ row isRow
  have agrees := (Schema.agrees_iff _ _).mp held.agrees
  have uncut : (row.values.map Value.kept).map Value.type = row.values.map Value.type := by
    simp [Value.type_kept]
  rw [uncut, ← owns.schema_eq, ← agrees]
  exact held.typed

/-- The cursor of a scan sees the whole table, as long as the file has few pages. -/
theorem table_eq_lines (coherent : store.Coherent) (few : store.Few) {source : ScanSource}
    (registered : store.catalog.file? source.file.table = some source.file) :
    store.table source = store.lines source 0 := by
  rw [table, lines, cellCount, current_of_few coherent few, pageCount_eq_extent few registered]

theorem types_of_scan (coherent : store.Coherent) (few : store.Few) {source : ScanSource}
    (registered : store.catalog.file? source.file.table = some source.file) :
    ∀ line ∈ store.table source, line.values.map Value.type = source.schema.types := by
  intro line member
  rw [table_eq_lines coherent few registered] at member
  obtain ⟨index, -, there⟩ := List.mem_filterMap.mp member
  obtain ⟨values, isCell, rfl⟩ := Option.map_eq_some_iff.mp there
  rw [Plan.types_schema]
  exact types_of_cell coherent registered isCell

end Store

namespace Plan

variable {μ : Type} {store : Store μ}

theorem file_of_scanAs {catalog : Catalog} {table : TableId} {source : ScanSource}
    (built : scanAs catalog table source.«alias» = .ok (scan source)) :
    catalog.file? table = some source.file := by
  obtain ⟨info, isInfo, built⟩ := Error.exists_of_bind built
  have found : catalog.find? table = some info := by
    unfold Catalog.registration at isInfo
    split at isInfo
    · next other isOther =>
      obtain rfl := Except.ok.inj isInfo
      exact isOther
    · contradiction
  have same := congrArg ScanSource.file (Plan.scan.inj (Except.ok.inj built))
  rw [Catalog.file?, found]
  exact congrArg some same

/-- A scan that has been built reads the file that is registered for its table. -/
theorem registered_of_scanAs (sound : store.Sound) {table : TableId} {source : ScanSource}
    (built : scanAs store.catalog table source.«alias» = .ok (scan source)) :
    store.catalog.file? source.file.table = some source.file := by
  have registered := file_of_scanAs built
  rw [(sound table source.file registered).1]
  exact registered

theorem types_of_reads (coherent : store.Coherent) (few : store.Few) {plan : Plan}
    (reads : plan.Reads store.catalog) :
    ∀ line ∈ plan.lines store, line.values.map Value.type = plan.schema.types := by
  induction plan with
  | values schema rows =>
    intro line member
    obtain ⟨row, isRow, rfl⟩ := List.mem_map.mp member
    exact reads row isRow
  | scan source =>
    obtain ⟨table, built⟩ := reads
    exact Store.types_of_scan coherent few (registered_of_scanAs coherent.sound built)
  | filter predicate child ih =>
    intro line member
    exact ih reads.1 line (List.mem_of_mem_filter member)
  | aggregate aggregation child ih =>
    obtain ⟨childReads, field, grouping, function, built⟩ := reads
    exact Aggregation.types_of_lines (over_of_aggregateOver built) (ih childReads)
  | insert => exact reads.elim
  | delete => exact reads.elim

theorem mem_range_line (coherent : store.Coherent) (few : store.Few) {plan : Plan}
    (reads : plan.Reads store.catalog) : ∀ line ∈ plan.lines store, line ∈ Set.range Row.line := by
  have typed := types_of_reads coherent few reads
  induction plan with
  | values schema rows =>
    intro line member
    obtain ⟨row, -, rfl⟩ := List.mem_map.mp member
    exact ⟨row, rfl⟩
  | scan source =>
    intro line member
    have length := Schema.length_of_types (typed line member)
    obtain ⟨index, -, there⟩ := List.mem_filterMap.mp member
    obtain ⟨values, -, rfl⟩ := Option.map_eq_some_iff.mp there
    exact ⟨⟨source.schema, values, length, some (source.file.recordAt index)⟩, rfl⟩
  | filter predicate child ih =>
    intro line member
    exact ih reads.1 (types_of_reads coherent few reads.1) line (List.mem_of_mem_filter member)
  | aggregate aggregation child _ =>
    intro line member
    have length := Schema.length_of_types (typed line member)
    obtain ⟨values, -, rfl⟩ := List.mem_map.mp member
    exact ⟨⟨aggregation.schema, values, length, none⟩, rfl⟩
  | insert => exact reads.elim
  | delete => exact reads.elim

/-- The lines of a plan are the lines of rows. -/
theorem exists_rows (coherent : store.Coherent) (few : store.Few) {plan : Plan}
    (reads : plan.Reads store.catalog) :
    ∃ rows : List Row, rows.map Row.line = plan.lines store := by
  have inRange : plan.lines store ∈ Set.range (List.map Row.line) := by
    rw [Set.range_list_map]
    exact mem_range_line coherent few reads
  exact inRange

theorem length_lines_lt {bound : Nat} {plan : Plan} (within : plan.Within store bound)
    (reads : plan.Reads store.catalog) : (plan.lines store).length < bound := by
  induction plan with
  | values schema rows =>
    rw [lines, List.length_map]
    exact within
  | scan source => exact within
  | filter predicate child ih =>
    exact Nat.lt_of_le_of_lt (List.length_filter_le ..) (ih within reads.1)
  | aggregate aggregation child ih =>
    exact Nat.lt_of_le_of_lt (aggregation.length_lines_le _) (ih within reads.1)
  | insert => exact reads.elim
  | delete => exact reads.elim

end Plan

end PagedStore
