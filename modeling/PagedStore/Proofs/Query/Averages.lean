import PagedStore.Proofs.Query.Merging

/-!
When an average is divided by zero. The count of a group is a word of 32 bits and moves on with each
row, so it is zero again at the row that brings the group to 2^32 rows, and the sum is divided by it
then. That is the only way: an aggregator of averages breaks exactly when some group receives its
2^32-th row since the groups were last forgotten. Until then every row that brings a value is merged,
and no group has a count of zero.
-/

namespace PagedStore

namespace Aggregator

/-- Merging the row divides by a count that is zero. -/
def Breaks (aggregator : Aggregator) (row : Row) : Prop :=
  ∃ left, merge row aggregator = .error .dividedByZero left

def BreaksWithin (start : Aggregator) (requests : List Request) : Prop :=
  ∃ earlier row, earlier ++ [.merge row] <+: requests ∧ (start.after earlier).aggregator.Breaks row

/-- One of the rows is the one that brings its group to 2^32 rows since the last clearing. -/
def Fills (start : Aggregator) (requests : List Request) : Prop :=
  ∃ earlier row entry, earlier ++ [.merge row] <+: requests ∧ start.brings row = .ok entry ∧
    start.countWith (start.after earlier).merged row = 2 ^ 32

def Session.Below (start : Aggregator) (session : Session) : Prop :=
  ∀ row, start.countWith session.merged row ≤ 2 ^ 32

variable {start : Aggregator} {taken : List Taken} {session : Session} {row : Row}

theorem Fills.mono {requests more : List Request} (fills : start.Fills requests)
    (before : requests <+: more) : start.Fills more := by
  obtain ⟨earlier, row, entry, within, brings, full⟩ := fills
  exact ⟨earlier, row, entry, within.trans before, brings, full⟩

theorem BreaksWithin.mono {requests more : List Request} (breaks : start.BreaksWithin requests)
    (before : requests <+: more) : start.BreaksWithin more := by
  obtain ⟨earlier, row, within, breaks⟩ := breaks
  exact ⟨earlier, row, within.trans before, breaks⟩

theorem not_fills_of_short {requests : List Request} (short : requests.length < 2 ^ 32) :
    ¬start.Fills requests := by
  rintro ⟨earlier, row, entry, before, -, full⟩
  have few := countWith_le_of_prefix start before
  omega

theorem countWith_concat (start : Aggregator) (merged : List Row) (other row : Row) :
    start.countWith (merged ++ [other]) row =
      start.countWith merged row + if start.key other = start.key row then 1 else 0 := by
  by_cases same : start.key other = start.key row <;> simp [countWith, same]

theorem applies_average (input : start.input = .integer) (function : start.function = .average) :
    (start.function.resultType? start.input).isSome := by
  rw [input, function]
  rfl

/-- A call is the last one, or it is one of those before. -/
theorem last_or_before {earlier requests : List Request} {request : Request}
    (within : earlier ++ [.merge row] <+: requests ++ [request]) :
    earlier = requests ∨ earlier ++ [.merge row] <+: requests := by
  cases List.prefix_concat_iff.mp within with
  | inl last => exact Or.inl (List.append_inj' last rfl).1
  | inr before => exact Or.inr before

/-- A row that brings something and does not fill its group is merged. -/
theorem merged_of_unfilled (applies : (start.function.resultType? start.input).isSome)
    (batch : session.Batch start taken) (below : session.Below start) {entry : Taken}
    (brings : start.brings row = .ok entry)
    (unfilled : start.countWith session.merged row ≠ 2 ^ 32) :
    merge row session.aggregator = .ok () (start.grouped (taken ++ [entry])) := by
  have fewer := Nat.lt_of_le_of_ne (below row) unfilled
  apply batch_merged applies batch brings
  intro _
  exact AggregateFunction.wrapped_ne_zero (Nat.succ_pos _) fewer

/-- One more row in a group that is not filled by it. -/
theorem below_concat {merged : List Row} (below : ∀ other, start.countWith merged other ≤ 2 ^ 32)
    (unfilled : start.countWith merged row ≠ 2 ^ 32) (other : Row) :
    start.countWith (merged ++ [row]) other ≤ 2 ^ 32 := by
  have most := below other
  rw [countWith_concat]
  by_cases same : start.key row = start.key other
  · have sameCount : start.countWith merged other = start.countWith merged row := by
      simp only [countWith, same]
    rw [if_pos same]
    omega
  · rw [if_neg same]
    exact most

/-- What one call preserves unless it fills a group. -/
theorem below_perform (applies : (start.function.resultType? start.input).isSome)
    (batch : session.Batch start taken) (below : session.Below start) {request : Request}
    (unfilled : ∀ row entry, request = .merge row → start.brings row = .ok entry →
      start.countWith session.merged row ≠ 2 ^ 32) :
    (∃ taken, (session.perform request).Batch start taken) ∧
      (session.perform request).Below start := by
  constructor
  · apply batch_perform applies batch
    intro row entry isMerge brings _
    have fewer := Nat.lt_of_le_of_ne (below row) (unfilled row entry isMerge brings)
    exact AggregateFunction.wrapped_ne_zero (Nat.succ_pos _) fewer
  · cases request with
    | clear =>
      intro row
      simp [Session.perform, countWith]
    | merge row =>
      cases brings : start.brings row with
      | error cause =>
        rw [Session.perform, batch_refused batch brings]
        exact below
      | ok entry =>
        have notFull := unfilled row entry rfl brings
        rw [Session.perform, merged_of_unfilled applies batch below brings notFull]
        exact below_concat below notFull

/-- What all calls preserve as long as no group is filled. -/
theorem below_after (fresh : start.groups = [])
    (applies : (start.function.resultType? start.input).isSome) {requests : List Request}
    (unfilled : ¬start.Fills requests) :
    (∃ taken, (start.after requests).Batch start taken) ∧ (start.after requests).Below start := by
  induction requests using List.reverseRecOn with
  | nil =>
    constructor
    · apply batch_after fresh applies
      intro _ earlier row entry before
      simp at before
    · intro row
      simp [after, countWith]
  | append_singleton requests request ih =>
    have earlier : ¬start.Fills requests := fun fills => unfilled (fills.mono (List.prefix_append ..))
    obtain ⟨⟨taken, batch⟩, below⟩ := ih earlier
    rw [after_concat]
    apply below_perform applies batch below
    intro row entry isMerge brings full
    exact unfilled ⟨requests, row, entry, isMerge ▸ List.prefix_rfl, brings, full⟩

/-- A row that fills its group breaks the aggregator: the count of the group has come round to zero. -/
theorem breaks_of_filled (input : start.input = .integer) (function : start.function = .average)
    (batch : session.Batch start taken) {entry : Taken} (brings : start.brings row = .ok entry)
    (full : start.countWith session.merged row = 2 ^ 32) : session.aggregator.Breaks row := by
  obtain ⟨key, value⟩ := entry
  obtain ⟨keyed, valued, type⟩ := of_brings brings
  have length : (valuesOf taken key).length + 1 = 2 ^ 32 := by
    rw [length_valuesOf_of_brought batch.brought, ← full, countWith, keyed]
  have known : key ∈ keysOf taken := by
    by_contra unknown
    rw [valuesOf_of_unknown unknown] at length
    contradiction
  obtain ⟨numbers, isNumbers⟩ : ∃ numbers : List Int32, valuesOf taken key = numbers.map .integer :=
    Group.exists_integers (type_of_valuesOf (input ▸ type_of_brought batch.brought))
  rw [isNumbers, List.length_map] at length
  have countZero : Int32.ofNat numbers.length + 1 = 0 := by
    change Int32.ofNat numbers.length + Int32.ofNat 1 = 0
    rw [← Int32.ofNat_add, length]
    decide
  have groups : (start.grouped taken).groups =
      groupsOf (start.grouped taken).input (start.grouped taken).function taken := rfl
  have found := find_of_groups groups key
  rw [if_pos known, isNumbers] at found
  cases value with
  | text content => exact ValueType.noConfusion (type.trans input)
  | integer number =>
    have keyedNow : (start.grouped taken).key row = .ok key := keyed
    have integers : (start.grouped taken).input = .integer := input
    have averages : (start.grouped taken).function = .average := function
    rw [integers, averages, Group.ofValues_integers] at found
    rw [Breaks, batch.aggregator_eq, merge_valued keyedNow valued, mergeValue_integer integers,
      update_known found, averages, Group.mergeInteger_of_integer rfl]
    simp only [Group.nextInteger, countZero, if_true]
    exact ⟨_, rfl⟩

/-- What one row does: it breaks the aggregator exactly when it brings something and fills its group. -/
theorem breaks_iff (input : start.input = .integer) (function : start.function = .average)
    (batch : session.Batch start taken) (below : session.Below start) :
    session.aggregator.Breaks row ↔
      ∃ entry, start.brings row = .ok entry ∧ start.countWith session.merged row = 2 ^ 32 := by
  constructor
  · intro breaks
    obtain ⟨left, broken⟩ := breaks
    cases brings : start.brings row with
    | error cause =>
      -- what is refused is refused with an error
      rw [batch_refused batch brings] at broken
      cases broken
    | ok entry =>
      refine ⟨entry, rfl, ?_⟩
      by_contra unfilled
      rw [merged_of_unfilled (applies_average input function) batch below brings unfilled] at broken
      cases broken
  · intro filled
    obtain ⟨entry, brings, full⟩ := filled
    exact breaks_of_filled input function batch brings full

theorem breaksWithin_iff (fresh : start.groups = []) (input : start.input = .integer)
    (function : start.function = .average) {requests : List Request} :
    start.BreaksWithin requests ↔ start.Fills requests := by
  induction requests using List.reverseRecOn with
  | nil => simp [BreaksWithin, Fills]
  | append_singleton requests request ih =>
    by_cases filled : start.Fills requests
    · have before : requests <+: requests ++ [request] := List.prefix_append ..
      exact iff_of_true ((ih.mpr filled).mono before) (filled.mono before)
    -- the row has to be that of the last call, and up to there all is well
    · obtain ⟨⟨taken, batch⟩, below⟩ := below_after fresh (applies_average input function) filled
      constructor
      · rintro ⟨earlier, row, within, breaks⟩
        cases last_or_before within with
        | inl last =>
          subst last
          obtain ⟨entry, brings, full⟩ := (breaks_iff input function batch below).mp breaks
          exact ⟨earlier, row, entry, within, brings, full⟩
        | inr before => exact absurd (ih.mp ⟨earlier, row, before, breaks⟩) filled
      · rintro ⟨earlier, row, entry, within, brings, full⟩
        cases last_or_before within with
        | inl last =>
          subst last
          exact ⟨earlier, row, within, breaks_of_filled input function batch brings full⟩
        | inr before => exact absurd ⟨earlier, row, entry, before, brings, full⟩ filled

/-- Each group has a row, and fewer than 2^32 of them. -/
theorem count_ne_zero_of_batch (batch : session.Batch start taken) (below : session.Below start) :
    ∀ group ∈ session.aggregator.groups, group.count ≠ 0 := by
  intro group member isZero
  rw [batch.aggregator_eq] at member
  obtain ⟨key, known, rfl⟩ := List.mem_map.mp member
  obtain ⟨value, isTaken⟩ := mem_keysOf_iff.mp known
  obtain ⟨row, -, brings⟩ := mem_of_brought batch.brought isTaken
  have keyed : start.key row = .ok key := (of_brings brings).1
  have most := below row
  rw [countWith, keyed, ← length_valuesOf_of_brought batch.brought] at most
  have positive := List.length_pos_of_ne_nil (valuesOf_ne_nil known)
  have count : (Group.ofValues start.input start.function key (valuesOf taken key)).count =
      Int32.ofNat (valuesOf taken key).length := by cases start.input <;> rfl
  rw [count] at isZero
  apply AggregateFunction.wrapped_ne_zero positive most
  rw [← AggregateFunction.toInt_ofNat, isZero]
  rfl

/-- An aggregator of averages divides by zero exactly when a group receives its 2^32-th row. As long as
none has, every row that brings a value is merged, and no group has a count of zero. -/
theorem average_breaks_iff_filled {field : Nat} {grouping : Option (Nat × ValueType)}
    (started : Aggregator.start .integer .average field grouping = .ok start)
    (requests : List Request) :
    (start.BreaksWithin requests ↔ start.Fills requests) ∧
      (¬start.Fills requests →
        (∀ earlier row entry, earlier ++ [.merge row] <+: requests → start.brings row = .ok entry →
          ∃ merged, merge row (start.after earlier).aggregator = .ok () merged) ∧
        ∀ group ∈ (start.after requests).aggregator.groups, group.count ≠ 0) := by
  obtain rfl := Except.ok.inj started
  constructor
  · exact breaksWithin_iff rfl rfl rfl
  · intro unfilled
    constructor
    · intro earlier row entry within brings
      have sooner : earlier <+: requests := (List.prefix_append ..).trans within
      obtain ⟨⟨taken, batch⟩, below⟩ := below_after rfl rfl fun fills => unfilled (fills.mono sooner)
      exact ⟨_, merged_of_unfilled rfl batch below brings fun full =>
        unfilled ⟨earlier, row, entry, within, brings, full⟩⟩
    · obtain ⟨⟨taken, batch⟩, below⟩ := below_after rfl rfl unfilled
      exact count_ne_zero_of_batch batch below

theorem average_breaks_iff_filled_of_averages :
    Aggregator.start .integer .average 1 (some (0, .text)) = .ok averages ∧
      ¬averages.Fills someRequests ∧ ¬averages.BreaksWithin someRequests ∧
      ∀ group ∈ (averages.after someRequests).aggregator.groups, group.count ≠ 0 :=
  have started : Aggregator.start .integer .average 1 (some (0, .text)) = .ok averages := rfl
  have unfilled : ¬averages.Fills someRequests := not_fills_of_short (by decide)
  have ⟨breaks, keeps⟩ := average_breaks_iff_filled started someRequests
  ⟨started, unfilled, mt breaks.mp unfilled, (keeps unfilled).2⟩

/-- One row merged over and over, fewer than 2^32 times, is merged each time. -/
theorem merged_after_replicate (fresh : start.groups = [])
    (applies : (start.function.resultType? start.input).isSome) {entry : Taken}
    (brings : start.brings row = .ok entry) {times : Nat} (short : times < 2 ^ 32) :
    (start.after (List.replicate times (.merge row))).merged = List.replicate times row := by
  induction times with
  | zero => rfl
  | succ times ih =>
    have unfilled : ¬start.Fills (List.replicate (times + 1) (.merge row)) :=
      not_fills_of_short (by rw [List.length_replicate]; exact short)
    have earlier := ih (Nat.lt_of_succ_lt short)
    rw [List.replicate_succ'] at unfilled
    obtain ⟨⟨taken, batch⟩, below⟩ :=
      below_after fresh applies fun fills => unfilled (fills.mono (List.prefix_append ..))
    have merged := merged_of_unfilled applies batch below brings fun full =>
      unfilled ⟨_, row, entry, List.prefix_rfl, brings, full⟩
    rw [List.replicate_succ', after_concat, Session.perform, merged, List.replicate_succ', earlier]

/-- After one row fewer than 2^32, the same row again breaks an average. -/
theorem breaks_after_replicate (fresh : start.groups = []) (input : start.input = .integer)
    (function : start.function = .average) {entry : Taken} (brings : start.brings row = .ok entry)
    {times : Nat} (last : times + 1 = 2 ^ 32) :
    (start.after (List.replicate times (.merge row))).aggregator.Breaks row := by
  have applies := applies_average input function
  have short : times < 2 ^ 32 := Nat.lt_of_succ_le (Nat.le_of_eq last)
  have unfilled : ¬start.Fills (List.replicate times (.merge row)) :=
    not_fills_of_short (by rw [List.length_replicate]; exact short)
  obtain ⟨⟨taken, batch⟩, -⟩ := below_after fresh applies unfilled
  apply breaks_of_filled input function batch brings
  rw [merged_after_replicate fresh applies brings short, countWith, List.countP_replicate,
    if_pos (by simp), last]

def overall : Aggregator := ⟨.integer, .average, 1, none, []⟩

/-- 2^32 - 1 equal rows are merged one after the other; the next one divides by zero. -/
theorem average_broken_by_long_run :
    Aggregator.start .integer .average 1 none = .ok overall ∧
      overall.brings (scored "a" 1) = .ok (none, .integer 1) ∧
      (overall.after (List.replicate (2 ^ 32 - 1) (.merge (scored "a" 1)))).merged =
        List.replicate (2 ^ 32 - 1) (scored "a" 1) ∧
      (overall.after (List.replicate (2 ^ 32 - 1) (.merge (scored "a" 1)))).aggregator.Breaks
        (scored "a" 1) :=
  have brings : overall.brings (scored "a" 1) = .ok (none, .integer 1) := rfl
  ⟨rfl, brings, merged_after_replicate rfl rfl brings (by omega),
    breaks_after_replicate rfl rfl rfl brings (by omega)⟩

end Aggregator

end PagedStore
