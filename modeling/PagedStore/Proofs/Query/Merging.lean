import Mathlib.Data.List.Perm.Subperm
import PagedStore.Proofs.Query.Summaries

/-!
What an aggregator has worked out after any calls. Rows are merged into groups that are changed in place,
some of them are refused, and from time to time all groups are forgotten. What counts in the end are the
rows that were merged since the groups were last forgotten: there is one result for each of their keys,
in the order in which the keys were first merged, and it is what the function makes of all values with
that key. A row that is refused changes no group. The check of the running result, which comes after the
count and the sum of the group have moved on, never fails, since the running result of a group of
integers is an integer.
-/

namespace PagedStore

/-- Whether a value stands before another one of its type: integers by size, texts byte by byte. -/
def Value.Below : Value → Value → Prop
  | .integer a, .integer b => a.toInt < b.toInt
  | .text a, .text b => Text.encode a < Text.encode b
  | _, _ => False

namespace AggregateFunction

def wrapped (number : Int) : Int := number.bmod (2 ^ 32)

def sumOf (values : List Value) : Int := total (values.filterMap Value.integer?)

/-- What the result of a function over some values has to be. -/
def Gives (function : AggregateFunction) (values : List Value) (result : Value) : Prop :=
  match function with
  | least => result ∈ values ∧ ∀ value ∈ values, ¬value.Below result
  | greatest => result ∈ values ∧ ∀ value ∈ values, ¬result.Below value
  | sum => ∃ number, result = .integer number ∧ number.toInt = wrapped (sumOf values)
  | average => ∃ number, result = .integer number ∧
      number.toInt = wrapped ((wrapped (sumOf values)).tdiv (wrapped values.length))
  | count => ∃ number, result = .integer number ∧ number.toInt = wrapped values.length

def ofValues (function : AggregateFunction) (input : ValueType) (values : List Value) : Value :=
  match input with
  | .integer => .integer (function.ofIntegers (values.filterMap Value.integer?))
  | .text => function.ofTexts (values.filterMap Value.text?)

instance : Std.LawfulOrderMax Int32 where
  max_eq_or a b := by
    rw [Group.max_eq_of_toInt]
    split
    · exact Or.inl rfl
    · exact Or.inr rfl
  max_le_iff a b c := by
    rw [Group.max_eq_of_toInt]
    simp only [Int32.le_iff_toInt_le]
    split <;> omega

theorem toInt_ofInt (number : Int) : (Int32.ofInt number).toInt = wrapped number := Int32.toInt_ofInt

theorem toInt_ofNat (number : Nat) : (Int32.ofNat number).toInt = wrapped number := Int32.toInt_ofNat'

/-- A count that fits into 32 bits has not come round to zero. -/
theorem wrapped_ne_zero {count : Nat} (positive : 0 < count) (below : count < 2 ^ 32) :
    wrapped count ≠ 0 := by
  intro isZero
  have divides := Int.dvd_of_bmod_eq_zero isZero
  omega

theorem total_eq_sumOf (numbers : List Int32) : total numbers = sumOf (numbers.map .integer) := by
  rw [sumOf, Value.integers_map]

variable {function : AggregateFunction}

theorem gives_integers {numbers : List Int32} (nonempty : numbers ≠ []) :
    function.Gives (numbers.map .integer) (.integer (function.ofIntegers numbers)) := by
  cases function with
  | least =>
    obtain ⟨smallest, isMin⟩ := Option.isSome_iff_exists.mp (List.isSome_min?_of_ne_nil nonempty)
    obtain ⟨member, below⟩ := List.min?_eq_some_iff.mp isMin
    simp only [Gives, ofIntegers, isMin, Option.getD_some]
    refine ⟨List.mem_map_of_mem member, List.forall_mem_map.mpr fun number isNumber => ?_⟩
    exact Int.not_lt.mpr (Int32.le_iff_toInt_le.mp (below number isNumber))
  | greatest =>
    obtain ⟨largest, isMax⟩ := Option.isSome_iff_exists.mp (List.isSome_max?_of_ne_nil nonempty)
    obtain ⟨member, above⟩ := List.max?_eq_some_iff.mp isMax
    simp only [Gives, ofIntegers, isMax, Option.getD_some]
    refine ⟨List.mem_map_of_mem member, List.forall_mem_map.mpr fun number isNumber => ?_⟩
    exact Int.not_lt.mpr (Int32.le_iff_toInt_le.mp (above number isNumber))
  | sum => exact ⟨_, rfl, by rw [ofIntegers, toInt_ofInt, total_eq_sumOf]⟩
  | average =>
    refine ⟨_, rfl, ?_⟩
    rw [ofIntegers, Int32.toInt_div, toInt_ofInt, toInt_ofNat, total_eq_sumOf, List.length_map]
    rfl
  | count => exact ⟨_, rfl, by rw [ofIntegers, toInt_ofNat, List.length_map]⟩

theorem gives_texts (applies : (function.resultType? .text).isSome) {contents : List String}
    (nonempty : contents ≠ []) :
    function.Gives (contents.map .text) (function.ofTexts contents) := by
  cases function with
  | least =>
    obtain ⟨smallest, isMin⟩ := Option.isSome_iff_exists.mp (List.isSome_min?_of_ne_nil nonempty)
    obtain ⟨member, below⟩ := List.min?_eq_some_iff.mp isMin
    simp only [Gives, ofTexts, isMin, Option.getD_some]
    refine ⟨List.mem_map_of_mem member, List.forall_mem_map.mpr fun content isContent => ?_⟩
    exact fun less => not_lt_of_ge (below content isContent) (Text.encode_lt_encode_iff.mp less)
  | greatest =>
    obtain ⟨largest, isMax⟩ := Option.isSome_iff_exists.mp (List.isSome_max?_of_ne_nil nonempty)
    obtain ⟨member, above⟩ := List.max?_eq_some_iff.mp isMax
    simp only [Gives, ofTexts, isMax, Option.getD_some]
    refine ⟨List.mem_map_of_mem member, List.forall_mem_map.mpr fun content isContent => ?_⟩
    exact fun less => not_lt_of_ge (above content isContent) (Text.encode_lt_encode_iff.mp less)
  | sum | average => exact absurd applies (by decide)
  | count => exact ⟨_, rfl, by rw [toInt_ofNat, List.length_map]⟩

end AggregateFunction

theorem Group.result_ofValues (input : ValueType) (function : AggregateFunction)
    (key : Option Value) (values : List Value) :
    (ofValues input function key values).result = function.ofValues input values := by
  cases input <;> rfl

namespace Aggregator

/-- What is taken from a row, or why the row is refused. -/
def brings (aggregator : Aggregator) (row : Row) : Except Error Taken := do
  let key ← aggregator.key row
  let value ← row.value aggregator.field
  if value.type = aggregator.input then .ok (key, value)
  else .error (.typeMismatch aggregator.input value.type)

inductive Request where
  | merge (row : Row)
  | clear

structure Session where
  aggregator : Aggregator
  merged : List Row

/-- One call. A merge that fails leaves the aggregator as it had changed it by then. -/
def Session.perform (session : Session) : Request → Session
  | .merge row =>
      match Aggregator.merge row session.aggregator with
      | .ok _ changed => ⟨changed, session.merged ++ [row]⟩
      | .error _ changed => ⟨changed, session.merged⟩
  | .clear => ⟨session.aggregator.clear, []⟩

def after (start : Aggregator) (requests : List Request) : Session :=
  requests.foldl Session.perform ⟨start, []⟩

/-- The number of rows in the group of a row once that row is merged. -/
def countWith (aggregator : Aggregator) (merged : List Row) (row : Row) : Nat :=
  (merged.countP fun other => aggregator.key other = aggregator.key row) + 1

/-- An average is never brought to a count that is zero when reduced to 32 bits. -/
def Unspent (start : Aggregator) (requests : List Request) : Prop :=
  start.function = .average → ∀ earlier row entry, earlier ++ [.merge row] <+: requests →
    start.brings row = .ok entry →
    AggregateFunction.wrapped (start.countWith (start.after earlier).merged row) ≠ 0

def grouped (start : Aggregator) (taken : List Taken) : Aggregator :=
  { start with groups := groupsOf start.input start.function taken }

structure Session.Batch (start : Aggregator) (taken : List Taken) (session : Session) : Prop where
  brought : session.merged.mapM start.brings = .ok taken
  aggregator_eq : session.aggregator = start.grouped taken

variable {start : Aggregator} {taken : List Taken} {session : Session} {row : Row}

theorem mergeValue_mismatch {aggregator : Aggregator} {value : Value}
    (mismatch : value.type ≠ aggregator.input) (key : Option Value) :
    mergeValue key value aggregator =
      .error (.error (.typeMismatch aggregator.input value.type)) aggregator := by
  rcases aggregator with ⟨input, function, field, grouping, groups⟩
  cases input <;> cases value <;> first | rfl | exact absurd rfl mismatch

/-- A row that brings nothing is refused before anything is changed. -/
theorem merge_refused {aggregator : Aggregator} {cause : Error}
    (refused : aggregator.brings row = .error cause) :
    merge row aggregator = .error (.error cause) aggregator := by
  unfold brings at refused
  cases keyed : aggregator.key row with
  | error reason =>
    rw [keyed] at refused
    obtain rfl : reason = cause := Except.error.inj refused
    simp only [merge, Action.bind_apply, Action.get_apply, Action.ofExcept_apply, keyed]
  | ok key =>
    cases valued : row.value aggregator.field with
    | error reason =>
      rw [keyed, valued] at refused
      obtain rfl : reason = cause := Except.error.inj refused
      simp only [merge, Action.bind_apply, Action.get_apply, Action.ofExcept_apply, keyed, valued]
    | ok value =>
      rw [keyed, valued] at refused
      dsimp only [bind, Except.bind] at refused
      split at refused
      · contradiction
      · next mismatch =>
        obtain rfl := Except.error.inj refused
        rw [merge_valued keyed valued, mergeValue_mismatch mismatch]

theorem of_brings {aggregator : Aggregator} {entry : Taken}
    (brought : aggregator.brings row = .ok entry) :
    aggregator.key row = .ok entry.1 ∧ row.value aggregator.field = .ok entry.2 ∧
      entry.2.type = aggregator.input := by
  obtain ⟨key, keyed, brought⟩ := Error.exists_of_bind brought
  obtain ⟨value, valued, brought⟩ := Error.exists_of_bind brought
  split at brought
  · next type =>
    obtain rfl := Except.ok.inj brought
    exact ⟨keyed, valued, type⟩
  · contradiction

theorem mem_of_brought {rows : List Row} (brought : rows.mapM start.brings = .ok taken)
    {entry : Taken} (member : entry ∈ taken) : ∃ row ∈ rows, start.brings row = .ok entry := by
  have images := (Error.mapM_eq_ok_iff ..).mp brought
  have image : Except.ok entry ∈ rows.map start.brings := images ▸ List.mem_map_of_mem member
  exact List.mem_map.mp image

theorem type_of_brought {rows : List Row} (brought : rows.mapM start.brings = .ok taken) :
    ∀ entry ∈ taken, entry.2.type = start.input := by
  intro entry member
  obtain ⟨row, -, brings⟩ := mem_of_brought brought member
  exact (of_brings brings).2.2

theorem brought_concat {rows : List Row} (brought : rows.mapM start.brings = .ok taken)
    {entry : Taken} (brings : start.brings row = .ok entry) :
    (rows ++ [row]).mapM start.brings = .ok (taken ++ [entry]) := by
  rw [Error.mapM_eq_ok_iff] at brought ⊢
  rw [List.map_append, List.map_append, brought, List.map_singleton, List.map_singleton, brings]

/-- The group of a key has as many values as there are rows with that key. -/
theorem length_valuesOf_of_brought {rows : List Row} (brought : rows.mapM start.brings = .ok taken)
    (key : Option Value) :
    (valuesOf taken key).length = rows.countP fun other => start.key other = .ok key := by
  rw [Error.mapM_eq_ok_iff] at brought
  induction rows generalizing taken with
  | nil =>
    obtain rfl := List.map_eq_nil_iff.mp brought.symm
    rfl
  | cons row rows ih =>
    obtain ⟨entry, others, rfl, brings, rest⟩ := List.map_eq_cons_iff.mp brought.symm
    have keyed := (of_brings brings.symm).1
    have others := ih rest.symm
    rw [List.countP_cons, ← others, keyed]
    by_cases same : entry.1 = key
    · simp [valuesOf, same]
    · simp [valuesOf, same]

/-- What one call preserves. A row that brings something is merged into the group of its key; the check of
the running result does not fail, because the running result is that of a group of integers. -/
theorem batch_merged (applies : (start.function.resultType? start.input).isSome)
    (batch : session.Batch start taken) {entry : Taken} (brings : start.brings row = .ok entry)
    (counted : start.function = .average →
      AggregateFunction.wrapped (start.countWith session.merged row) ≠ 0) :
    merge row session.aggregator = .ok () (start.grouped (taken ++ [entry])) := by
  obtain ⟨keyed, valued, type⟩ := of_brings brings
  have nonzero : start.function = .average →
      Int32.ofNat ((valuesOf taken entry.1).length + 1) ≠ 0 := by
    intro average isZero
    apply counted average
    rw [countWith, keyed, ← length_valuesOf_of_brought batch.brought, ← AggregateFunction.toInt_ofNat,
      isZero]
    rfl
  have groups : (start.grouped taken).groups = groupsOf start.input start.function taken := rfl
  have keyedNow : (start.grouped taken).key row = .ok entry.1 := keyed
  rw [batch.aggregator_eq, merge_valued keyedNow valued]
  exact mergeValue_eq groups (type_of_brought batch.brought) applies entry.1 type nonzero

/-- A row that brings nothing is refused, and nothing has changed. -/
theorem batch_refused (batch : session.Batch start taken) {cause : Error}
    (refused : start.brings row = .error cause) :
    merge row session.aggregator = .error (.error cause) session.aggregator := by
  rw [batch.aggregator_eq]
  exact merge_refused refused

theorem batch_perform (applies : (start.function.resultType? start.input).isSome)
    (batch : session.Batch start taken) {request : Request}
    (counted : ∀ row entry, request = .merge row → start.brings row = .ok entry →
      start.function = .average →
      AggregateFunction.wrapped (start.countWith session.merged row) ≠ 0) :
    ∃ taken, (session.perform request).Batch start taken := by
  cases request with
  | clear => exact ⟨[], rfl, by rw [Session.perform, batch.aggregator_eq]; rfl⟩
  | merge row =>
    cases brings : start.brings row with
    | ok entry =>
      have merged := batch_merged applies batch brings (counted row entry rfl brings)
      refine ⟨taken ++ [entry], ?_⟩
      rw [Session.perform, merged]
      exact ⟨brought_concat batch.brought brings, rfl⟩
    | error cause =>
      refine ⟨taken, ?_⟩
      rw [Session.perform, batch_refused batch brings]
      exact batch

theorem after_concat (start : Aggregator) (requests : List Request) (request : Request) :
    start.after (requests ++ [request]) = (start.after requests).perform request :=
  List.foldl_concat ..

/-- What all calls preserve. -/
theorem batch_after (fresh : start.groups = [])
    (applies : (start.function.resultType? start.input).isSome) {requests : List Request}
    (counted : start.Unspent requests) : ∃ taken, (start.after requests).Batch start taken := by
  induction requests using List.reverseRecOn with
  | nil =>
    refine ⟨[], rfl, ?_⟩
    change start = { start with groups := [] }
    rw [← fresh]
  | append_singleton requests request ih =>
    obtain ⟨taken, batch⟩ := ih fun average earlier row entry before =>
      counted average earlier row entry (before.trans (List.prefix_append ..))
    rw [after_concat]
    refine batch_perform applies batch fun row entry isMerge brings average => ?_
    exact counted average requests row entry (isMerge ▸ List.prefix_rfl) brings

theorem results_grouped (start : Aggregator) (taken : List Taken) :
    (start.grouped taken).results = (keysOf taken).map fun key =>
      key.toList ++ [start.function.ofValues start.input (valuesOf taken key)] := by
  rw [results, grouped, groupsOf, List.map_map]
  apply List.map_congr_left
  intro key _
  simp only [Function.comp, Group.values, Group.key_ofValues, Group.result_ofValues]

theorem gives_ofValues {function : AggregateFunction} {input : ValueType}
    (applies : (function.resultType? input).isSome) {values : List Value}
    (typed : ∀ value ∈ values, value.type = input) (nonempty : values ≠ []) :
    function.Gives values (function.ofValues input values) := by
  cases input with
  | integer =>
    obtain ⟨numbers, rfl⟩ := Group.exists_integers typed
    rw [AggregateFunction.ofValues, Value.integers_map]
    exact AggregateFunction.gives_integers fun none => nonempty (none ▸ rfl)
  | text =>
    obtain ⟨contents, rfl⟩ := Group.exists_texts typed
    rw [AggregateFunction.ofValues, Value.texts_map]
    exact AggregateFunction.gives_texts applies fun none => nonempty (none ▸ rfl)

/-- Without a grouping column there is one key at most. -/
theorem length_keysOf_le_one (ungrouped : start.grouping = none) {rows : List Row}
    (brought : rows.mapM start.brings = .ok taken) : (keysOf taken).length ≤ 1 := by
  have missing : keysOf taken ⊆ [none] := by
    intro key known
    obtain ⟨value, member⟩ := mem_keysOf_iff.mp known
    obtain ⟨row, -, brings⟩ := mem_of_brought brought member
    have keyed := (of_brings brings).1
    rw [Aggregator.key, ungrouped] at keyed
    exact List.mem_singleton.mpr (Except.ok.inj keyed).symm
  exact ((nodup_keysOf taken).subperm missing).length_le

/-- What is true of an aggregator after any calls: its results are those of all merged rows at once, and
what is refused changes nothing. -/
structure Session.Summed (start : Aggregator) (session : Session) (taken : List Taken) : Prop where
  /-- One entry for each row merged since the last clearing. -/
  brought : session.merged.mapM start.brings = .ok taken
  /-- One row for each key, in the order in which the keys were first merged. -/
  results_eq : session.aggregator.results = (keysOf taken).map fun key =>
    key.toList ++ [start.function.ofValues start.input (valuesOf taken key)]
  keys_nodup : (keysOf taken).Nodup
  gives : ∀ key ∈ keysOf taken, start.function.Gives (valuesOf taken key)
    (start.function.ofValues start.input (valuesOf taken key))
  ungrouped : start.grouping = none → session.aggregator.results.length ≤ 1
  unmerged : session.merged = [] → session.aggregator.results = []
  /-- A row with its columns and a value of the type is merged, unless an average is spent. -/
  granted : ∀ row entry, start.brings row = .ok entry →
    (start.function = .average →
      AggregateFunction.wrapped (start.countWith session.merged row) ≠ 0) →
    merge row session.aggregator = .ok () (start.grouped (taken ++ [entry]))
  /-- Any other row is refused, and no group has changed then. -/
  refused : ∀ row cause, start.brings row = .error cause →
    merge row session.aggregator = .error (.error cause) session.aggregator

theorem summed_of_batch (applies : (start.function.resultType? start.input).isSome)
    (batch : session.Batch start taken) : session.Summed start taken where
  brought := batch.brought
  results_eq := by rw [batch.aggregator_eq, results_grouped]
  keys_nodup := nodup_keysOf taken
  gives key known := gives_ofValues applies (type_of_valuesOf (type_of_brought batch.brought))
    (valuesOf_ne_nil known)
  ungrouped ungrouped := by
    rw [batch.aggregator_eq, results_grouped, List.length_map]
    exact length_keysOf_le_one ungrouped batch.brought
  unmerged none := by
    have brought := batch.brought
    rw [none] at brought
    obtain rfl := Except.ok.inj brought
    rw [batch.aggregator_eq]
    rfl
  granted _ _ brings counted := batch_merged applies batch brings counted
  refused _ _ brings := batch_refused batch brings

/-- After any calls the results of an aggregator are those of the rows merged since it was last cleared:
one for each key, in the order in which the keys were first merged. -/
theorem results_of_merged {input : ValueType} {function : AggregateFunction} {field : Nat}
    {grouping : Option (Nat × ValueType)}
    (started : Aggregator.start input function field grouping = .ok start)
    {requests : List Request} (counted : start.Unspent requests) :
    ∃ taken, (start.after requests).Summed start taken := by
  unfold Aggregator.start at started
  split at started
  · next applies =>
    obtain rfl := Except.ok.inj started
    obtain ⟨taken, batch⟩ := batch_after rfl applies counted
    exact ⟨taken, summed_of_batch applies batch⟩
  · contradiction

theorem length_merged_after_le (start : Aggregator) (requests : List Request) :
    (start.after requests).merged.length ≤ requests.length := by
  induction requests using List.reverseRecOn with
  | nil => exact Nat.le_refl 0
  | append_singleton requests request ih =>
    rw [after_concat, List.length_append, List.length_singleton]
    cases request with
    | clear => exact Nat.zero_le _
    | merge row =>
      unfold Session.perform
      dsimp only
      split
      · rw [List.length_append, List.length_singleton]
        exact Nat.succ_le_succ ih
      · exact Nat.le_succ_of_le ih

/-- A group has no more rows than there were calls. -/
theorem countWith_le_of_prefix (start : Aggregator) {earlier requests : List Request}
    (before : earlier ++ [.merge row] <+: requests) :
    start.countWith (start.after earlier).merged row ≤ requests.length := by
  have few := length_merged_after_le start earlier
  have within := before.length_le
  rw [List.length_append, List.length_singleton] at within
  have counted : start.countWith (start.after earlier).merged row ≤
      (start.after earlier).merged.length + 1 := Nat.succ_le_succ List.countP_le_length
  omega

theorem unspent_of_short {requests : List Request} (short : requests.length < 2 ^ 32) :
    start.Unspent requests := by
  intro _ earlier row entry before _
  have few := countWith_le_of_prefix start before
  exact AggregateFunction.wrapped_ne_zero (Nat.succ_pos _) (Nat.lt_of_le_of_lt few short)

def scored (name : String) (score : Int32) : Row :=
  ⟨(Schema.single (.unnamed .text)).append (.single (.unnamed .integer)),
    [.text name, .integer score], rfl, none⟩

def unscored (name : String) : Row := ⟨.single (.unnamed .text), [.text name], rfl, none⟩

def averages : Aggregator := ⟨.integer, .average, 1, some (0, .text), []⟩

/-- What was merged before the clearing does not count, nor does the row without a score. -/
def someRequests : List Request :=
  [.merge (scored "b" 5), .clear, .merge (scored "a" 1), .merge (scored "b" (-7)),
    .merge (unscored "a"), .merge (scored "a" 2), .merge (scored "b" 2)]

theorem results_of_merged_averages :
    Aggregator.start .integer .average 1 (some (0, .text)) = .ok averages ∧
      averages.Unspent someRequests ∧
      (∃ taken, (averages.after someRequests).Summed averages taken) ∧
      (averages.after someRequests).aggregator.results =
        [[.text "a", .integer 1], [.text "b", .integer (-2)]] :=
  have started : Aggregator.start .integer .average 1 (some (0, .text)) = .ok averages := rfl
  have counted : averages.Unspent someRequests := unspent_of_short (by decide)
  ⟨started, counted, results_of_merged started counted, by decide⟩

end Aggregator

end PagedStore
