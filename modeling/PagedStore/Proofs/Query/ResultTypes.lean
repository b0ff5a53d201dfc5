import PagedStore.Proofs.Query.Denotation

/-!
The types of results. A row fits a schema if it has the columns of the schema, one value for each, and
every value the type of its column. What type the results of an aggregation have is settled once, when
it is built; the results themselves come from two ways of adding a value, with a rule for each function.
An aggregation that was built over the columns of its rows takes every row that fits them, and all of
its running results have the types of its columns. The only row that it may not take is one with which
the count of an average comes round to zero, and nothing can be divided by that. Since a row counts
once at most in a group, there have been as many rows by then as there are words.
-/

namespace PagedStore

structure Row.Fits (row : Row) (schema : Schema) : Prop where
  agrees : row.schema.agrees schema = true
  length_eq : row.values.length = schema.arity
  checked : row.checkTypes = .ok ()

def Schema.Admits (schema : Schema) (found : Option Row) : Prop := ∀ row ∈ found, row.Fits schema

theorem Schema.admits_none (schema : Schema) : schema.Admits none := by
  intro row absent
  contradiction

theorem Schema.admits_some {schema : Schema} {row : Row} (fits : row.Fits schema) :
    schema.Admits (some row) := by
  intro other same
  obtain rfl := Option.mem_some_iff.mp same
  exact fits

namespace Row

variable {schema : Schema} {row : Row}

theorem fits_iff :
    row.Fits schema ↔ row.schema.types = schema.types ∧ row.values.map Value.type = schema.types := by
  constructor
  · intro fits
    have columns := (Schema.agrees_iff _ _).mp fits.agrees
    have typed := (checkTypes_eq_ok_iff row).mp fits.checked
    exact ⟨columns, typed.trans columns⟩
  · rintro ⟨columns, typed⟩
    refine ⟨(Schema.agrees_iff _ _).mpr columns, Schema.length_of_types typed, ?_⟩
    rw [checkTypes_eq_ok_iff, WellTyped, typed, columns]

theorem fits_stamped (fits : row.Fits schema) (record : Option RecordId) :
    (row.stamped record).Fits schema :=
  ⟨fits.agrees, fits.length_eq, fits.checked⟩

theorem exists_fitting {values : List Value} (typed : values.map Value.type = schema.types) :
    ∃ row, make schema values = .ok row ∧ row.Fits schema := by
  have length := Schema.length_of_types typed
  refine ⟨⟨schema, values, length, none⟩, ?_, fits_iff.mpr ⟨rfl, typed⟩⟩
  rw [make, ofValues?, dif_pos length]

theorem exists_fitting_rows {lists : List (List Value)}
    (typed : ∀ values ∈ lists, values.map Value.type = schema.types) :
    ∃ rows, lists.mapM (make schema) = .ok rows ∧ ∀ row ∈ rows, row.Fits schema := by
  obtain ⟨rows, made, isLines⟩ :=
    exists_made fun values member => Schema.length_of_types (typed values member)
  refine ⟨rows, made, ?_⟩
  intro row member
  have isLine : row.line ∈ rows.map line := List.mem_map_of_mem member
  rw [isLines] at isLine
  obtain ⟨values, isValues, same⟩ := List.mem_map.mp isLine
  have columns : schema = row.schema := congrArg Line.schema same
  have isRow : values = row.values := congrArg Line.values same
  exact fits_iff.mpr ⟨columns ▸ rfl, isRow ▸ typed values isValues⟩

end Row

namespace AggregateFunction

/-- Every function gives an integer for integers. -/
theorem resultType_integer (function : AggregateFunction) :
    function.resultType? .integer = some .integer := by
  cases function <;> rfl

end AggregateFunction

namespace Group

variable {group : Group}

/-- An integer can be merged into an integer, unless the count of an average comes round to zero. -/
theorem mergeInteger_typed (function : AggregateFunction) (result : group.result.type = .integer)
    (number : Int32) :
    (∃ changed, mergeInteger function number group = .ok () changed ∧ changed.key = group.key ∧
        changed.count = group.count + 1 ∧ changed.result.type = .integer) ∨
      ((∃ changed, mergeInteger function number group = .error .dividedByZero changed) ∧
        function = .average ∧ group.count + 1 = 0) := by
  obtain ⟨current, isCurrent⟩ : ∃ current, group.result = .integer current := by
    cases value : group.result with
    | integer current => exact ⟨current, rfl⟩
    | text content =>
      rw [value] at result
      contradiction
  rw [mergeInteger_of_integer isCurrent]
  cases function with
  | least | greatest | sum | count => exact Or.inl ⟨_, rfl, rfl, rfl, rfl⟩
  | average =>
    by_cases uncounted : group.count + 1 = 0
    · right
      refine ⟨?_, rfl, uncounted⟩
      simp only [nextInteger, if_pos uncounted]
      exact ⟨_, rfl⟩
    · left
      simp only [nextInteger, if_neg uncounted]
      exact ⟨_, rfl, rfl, rfl, rfl⟩

theorem startText_typed {function : AggregateFunction} {type : ValueType}
    (applies : function.resultType? .text = some type) (key : Option Value) (content : String) :
    (startText function key content).result.type = type := by
  cases function with
  | sum | average => contradiction
  | least | greatest | count =>
    obtain rfl := Option.some.inj applies
    rfl

theorem mergeText_typed {function : AggregateFunction} {type : ValueType}
    (applies : function.resultType? .text = some type) (result : group.result.type = type)
    (content : String) :
    ∃ changed, mergeText function content group = .ok () changed ∧ changed.key = group.key ∧
      changed.count = group.count + 1 ∧ changed.result.type = type := by
  refine ⟨_, rfl, rfl, rfl, ?_⟩
  rcases group with ⟨key, count, sum, current⟩
  cases function with
  | sum | average => contradiction
  | count =>
    obtain rfl := Option.some.inj applies
    rfl
  | least | greatest =>
    obtain rfl := Option.some.inj applies
    cases current with
    | integer number => contradiction
    | text current => rfl

end Group

namespace Aggregator

variable {aggregator : Aggregator} {row : Row} {key : Option Value} {value : Value}

structure Takes (aggregator : Aggregator) (group : Group) : Prop where
  key : group.key.map Value.type = aggregator.grouping.map Prod.snd
  result : group.result.type = aggregator.resultType

/-- All running results have the types that the aggregator announces. -/
def Typed (aggregator : Aggregator) : Prop := ∀ group ∈ aggregator.groups, aggregator.Takes group

def Counted (aggregator : Aggregator) (rows : Nat) : Prop :=
  ∀ group ∈ aggregator.groups, ∃ count ≤ rows, group.count = Int32.ofNat count

/-- There is an average whose count comes round to zero with the next row. -/
def Spent (aggregator : Aggregator) : Prop :=
  aggregator.input = .integer ∧ aggregator.function = .average ∧
    ∃ group ∈ aggregator.groups, group.count + 1 = 0

theorem types_schema (aggregator : Aggregator) : aggregator.schema.types =
    (aggregator.grouping.map Prod.snd).toList ++ [aggregator.resultType] := by
  unfold schema
  cases aggregator.grouping <;> rfl

theorem types_of_takes {group : Group} (takes : aggregator.Takes group) :
    group.values.map Value.type = aggregator.schema.types := by
  rw [types_schema, ← takes.key, Group.values, List.map_append, List.map_singleton, takes.result]
  cases group.key <;> rfl

theorem mem_place {groups : List Group} {changed group : Group}
    (member : group ∈ place groups changed) : group ∈ groups ∨ group = changed := by
  induction groups with
  | nil => exact Or.inr (List.mem_singleton.mp member)
  | cons first rest ih =>
    unfold place at member
    split at member
    · rcases List.mem_cons.mp member with same | later
      · exact Or.inr same
      · exact Or.inl (List.mem_cons_of_mem _ later)
    · rcases List.mem_cons.mp member with same | later
      · exact Or.inl (same ▸ List.mem_cons_self)
      · exact (ih later).imp_left (List.mem_cons_of_mem _)

theorem typed_place (typed : aggregator.Typed) {changed : Group} (takes : aggregator.Takes changed) :
    Typed { aggregator with groups := place aggregator.groups changed } := by
  intro group member
  rcases mem_place member with known | rfl
  · exact ⟨(typed group known).key, (typed group known).result⟩
  · exact ⟨takes.key, takes.result⟩

def Grows (aggregator : Aggregator) (changed : Group) : Prop :=
  changed.count = 1 ∨ ∃ old ∈ aggregator.groups, changed.count = old.count + 1

theorem counted_place {rows : Nat} (counted : aggregator.Counted rows) {changed : Group}
    (grows : aggregator.Grows changed) :
    Counted { aggregator with groups := place aggregator.groups changed } (rows + 1) := by
  intro group member
  rcases mem_place member with known | rfl
  · obtain ⟨count, within, isCount⟩ := counted group known
    exact ⟨count, Nat.le_succ_of_le within, isCount⟩
  · rcases grows with first | ⟨old, known, next⟩
    · exact ⟨1, Nat.le_add_left 1 rows, first⟩
    · obtain ⟨count, within, isCount⟩ := counted old known
      refine ⟨count + 1, Nat.succ_le_succ within, ?_⟩
      rw [next, isCount, Int32.ofNat_add]
      rfl

/-- A count comes round to zero only after as many rows as there are words. -/
theorem rows_of_spent {rows : Nat} (counted : aggregator.Counted rows) (spent : aggregator.Spent) :
    2 ^ 32 ≤ rows + 1 := by
  obtain ⟨-, -, group, member, uncounted⟩ := spent
  obtain ⟨count, within, isCount⟩ := counted group member
  have round : Int32.ofNat (count + 1) = 0 := by
    rw [Int32.ofNat_add, ← isCount]
    exact uncounted
  have zero := congrArg Int32.toInt round
  rw [Int32.toInt_ofNat', Int32.toInt_zero] at zero
  have divides : 2 ^ 32 ∣ count + 1 := by
    exact_mod_cast Int.dvd_of_bmod_eq_zero zero
  exact Nat.le_trans (Nat.le_of_dvd (Nat.succ_pos count) divides) (Nat.succ_le_succ within)

def Took (aggregator : Aggregator) (row : Row) : Prop :=
  ∃ changed : Group,
    aggregator.add row = .ok { aggregator with groups := place aggregator.groups changed } ∧
    aggregator.Takes changed ∧ aggregator.Grows changed

theorem add_integer_typed (typed : aggregator.Typed) (input : aggregator.input = .integer)
    (keyed : aggregator.key row = .ok key)
    (keyType : key.map Value.type = aggregator.grouping.map Prod.snd) {number : Int32}
    (valued : row.value aggregator.field = .ok (.integer number)) :
    aggregator.Took row ∨ (aggregator.add row = .error .dividedByZero ∧ aggregator.Spent) := by
  have resultType : aggregator.resultType = .integer := by
    rw [Aggregator.resultType, input, AggregateFunction.resultType_integer]
    rfl
  unfold Took add
  rw [merge_valued keyed valued, mergeValue_integer input]
  cases known : aggregator.groups.find? (·.key = key) with
  | none =>
    rw [update_unknown known]
    exact Or.inl ⟨_, rfl, ⟨keyType, resultType.symm⟩, Or.inl rfl⟩
  | some group =>
    have member := List.mem_of_find?_eq_some known
    have takes := typed group member
    rw [update_known known]
    rcases Group.mergeInteger_typed aggregator.function (takes.result.trans resultType) number with
      ⟨changed, merged, sameKey, next, type⟩ | ⟨⟨changed, refused⟩, average, uncounted⟩
    · rw [merged]
      exact Or.inl ⟨_, rfl, ⟨sameKey ▸ takes.key, type.trans resultType.symm⟩,
        Or.inr ⟨group, member, next⟩⟩
    · rw [refused]
      exact Or.inr ⟨rfl, input, average, group, member, uncounted⟩

theorem add_text_typed (typed : aggregator.Typed) (input : aggregator.input = .text)
    (applies : (aggregator.function.resultType? aggregator.input).isSome)
    (keyed : aggregator.key row = .ok key)
    (keyType : key.map Value.type = aggregator.grouping.map Prod.snd) {content : String}
    (valued : row.value aggregator.field = .ok (.text content)) : aggregator.Took row := by
  rw [input] at applies
  obtain ⟨type, isType⟩ := Option.isSome_iff_exists.mp applies
  have resultType : aggregator.resultType = type := by
    rw [Aggregator.resultType, input, isType]
    rfl
  unfold Took add
  rw [merge_valued keyed valued, mergeValue_text input]
  cases known : aggregator.groups.find? (·.key = key) with
  | none =>
    have started := Group.startText_typed isType key content
    rw [update_unknown known]
    exact ⟨_, rfl, ⟨keyType, started.trans resultType.symm⟩, Or.inl rfl⟩
  | some group =>
    have member := List.mem_of_find?_eq_some known
    have takes := typed group member
    obtain ⟨changed, merged, sameKey, next, type⟩ :=
      Group.mergeText_typed isType (takes.result.trans resultType) content
    rw [update_known known, merged]
    exact ⟨_, rfl, ⟨sameKey ▸ takes.key, type.trans resultType.symm⟩, Or.inr ⟨group, member, next⟩⟩

end Aggregator

namespace Aggregation

variable {aggregation : Aggregation} {schema : Schema} {aggregator : Aggregator}

structure Runs (aggregation : Aggregation) (aggregator : Aggregator) : Prop where
  configured : aggregator.clear = aggregation.aggregator.clear
  typed : aggregator.Typed

theorem exists_groups (configured : aggregator.clear = aggregation.aggregator.clear) :
    ∃ groups, aggregator = { aggregation.aggregator with groups } :=
  ⟨aggregator.groups,
    congrArg (fun cleared : Aggregator => { cleared with groups := aggregator.groups }) configured⟩

theorem runs_clear (runs : aggregation.Runs aggregator) : aggregation.Runs aggregator.clear where
  configured := runs.configured
  typed := by
    intro group member
    contradiction

/-- The running results have the columns that were settled when the aggregation was built. -/
theorem types_of_results (suits : aggregation.Over schema) (runs : aggregation.Runs aggregator) :
    ∀ values ∈ aggregator.results, values.map Value.type = aggregation.schema.types := by
  intro values member
  obtain ⟨groups, rfl⟩ := exists_groups runs.configured
  obtain ⟨group, isGroup, rfl⟩ := List.mem_map.mp member
  rw [Aggregator.types_of_takes (runs.typed group isGroup), suits.types_eq,
    Aggregator.types_schema]
  rfl

theorem runs_of_took (runs : aggregation.Runs aggregator) {row : Row} (took : aggregator.Took row) :
    ∃ changed, aggregator.add row = .ok changed ∧ aggregation.Runs changed ∧
      ∀ rows, aggregator.Counted rows → changed.Counted (rows + 1) := by
  obtain ⟨changed, added, takes, grows⟩ := took
  exact ⟨_, added, ⟨runs.configured, Aggregator.typed_place runs.typed takes⟩,
    fun _ counted => Aggregator.counted_place counted grows⟩

/-- Every row that fits is taken and counted, unless an average is spent. -/
theorem runs_add (suits : aggregation.Over schema) (runs : aggregation.Runs aggregator) {row : Row}
    (fits : row.Fits schema) :
    (∃ changed, aggregator.add row = .ok changed ∧ aggregation.Runs changed ∧
        ∀ rows, aggregator.Counted rows → changed.Counted (rows + 1)) ∨
      (aggregator.add row = .error .dividedByZero ∧ aggregator.Spent) := by
  obtain ⟨key, value, isTaken, type, keyType⟩ := exists_taken suits (Row.fits_iff.mp fits).2
  obtain ⟨keyed, valued⟩ := taken_of_row isTaken
  obtain ⟨groups, rfl⟩ := exists_groups runs.configured
  cases value with
  | integer number =>
    have added := Aggregator.add_integer_typed runs.typed type.symm keyed keyType valued
    exact added.imp_left (runs_of_took runs)
  | text content =>
    left
    apply runs_of_took runs
    exact Aggregator.add_text_typed runs.typed type.symm suits.applies keyed keyType valued

end Aggregation

end PagedStore
