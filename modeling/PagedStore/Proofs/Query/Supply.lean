import PagedStore.Proofs.Query.Calls
import PagedStore.Proofs.Query.Denotation

/-!
Producing the list that a query denotes. Each node of an open plan has the rest of its list ahead of it.
Producing a row takes the first line off that rest, and this is shown once for each way of producing
rows: from a list, from a table, from what a stage below gives out, and from the finished results of
summing up. Starting and rewinding a plan put the whole list ahead again. Meanwhile pages are moved in
and out of memory, but the tables stay as they were at the beginning.
-/

namespace PagedStore

variable {μ α : Type} {origin store : Store μ}

namespace Stage

structure Ahead (ahead : α → List Line → Prop) (stage : Stage α) (rest : List Line) : Prop where
  ready : stage.Ready
  inner : ahead stage.inner rest

def AheadPassing (ahead : α → List Line → Prop) (predicate : Predicate) (stage : Stage α)
    (rest : List Line) : Prop :=
  ∃ behind, Ahead ahead stage behind ∧
    (behind.filter fun line => predicate.passes line.values) = rest

end Stage

namespace Plan

def AheadListed (rows : List Row) (position : Nat) (rest : List Line) : Prop :=
  (rows.drop position).map Row.line = rest

def AheadScanned (origin : Store μ) (source : ScanSource) (cursor : Cursor) (rest : List Line) :
    Prop :=
  ∃ place, Cursor.StandsAt source.file cursor place ∧ origin.lines source place = rest

/-- An aggregator is the one of its plan, whatever it has added up since. -/
def Configured : (plan : Plan) → plan.Inner → Prop
  | filter _ child, stage => child.Configured (Stage.inner stage)
  | aggregate aggregation child, (totals, stage) =>
      totals.aggregator.clear = aggregation.aggregator.clear ∧ child.Configured (Stage.inner stage)
  | _, _ => True

/-- What is still ahead of a node of an open plan. -/
def Ahead (origin : Store μ) : (plan : Plan) → plan.Inner → List Line → Prop
  | values _ rows, position, rest => AheadListed rows position rest
  | scan source, cursor, rest => AheadScanned origin source cursor rest
  | filter predicate child, stage, rest =>
      Stage.AheadPassing (child.Ahead origin) predicate stage rest
  | aggregate aggregation child, (totals, stage), rest =>
      Configured (aggregate aggregation child) (totals, stage) ∧
        totals.rows.map Row.line = aggregation.lines (child.lines origin) ∧
        Stage.Ahead (AheadListed totals.rows) totals.replay rest
  | insert _ _ _, _, _ | delete _ _, _, _ => False

theorem suffix_of_listed {rows : List Row} {position : Nat} {rest : List Line}
    (stands : AheadListed rows position rest) : rest <:+ rows.map Row.line := by
  rw [← stands]
  exact (List.drop_suffix position rows).map Row.line

theorem suffix_of_scanned {source : ScanSource} {cursor : Cursor} {rest : List Line}
    (stands : AheadScanned origin source cursor rest) : rest <:+ origin.lines source 0 := by
  obtain ⟨place, -, rfl⟩ := stands
  rw [Store.lines, Store.lines, ScanSource.lines, ScanSource.lines]
  apply List.IsSuffix.filterMap
  by_cases inside : place ≤ origin.cellCount source.file
  · refine ⟨List.range' 0 place, ?_⟩
    have joined := List.range'_append_1 (s := 0) (m := place)
      (n := origin.cellCount source.file - place)
    rw [Nat.zero_add, Nat.add_sub_cancel' inside] at joined
    exact joined
  · have past : origin.cellCount source.file - place = 0 := by omega
    rw [past]
    exact List.nil_suffix

theorem table_of_reads (coherent : origin.Coherent) (few : origin.Few) {source : ScanSource}
    (reads : (scan source).Reads origin.catalog) : origin.table source = origin.lines source 0 := by
  obtain ⟨table, built⟩ := reads
  exact Store.table_eq_lines coherent few (registered_of_scanAs coherent.sound built)

/-- What is ahead of a plan is the end of its list. -/
theorem suffix_of_ahead (coherent : origin.Coherent) (few : origin.Few) {plan : Plan}
    (reads : plan.Reads origin.catalog) {inner : plan.Inner} {rest : List Line}
    (stands : plan.Ahead origin inner rest) : rest <:+ plan.lines origin := by
  induction plan generalizing rest with
  | values schema rows => exact suffix_of_listed stands
  | scan source =>
    rw [lines, table_of_reads coherent few reads]
    exact suffix_of_scanned stands
  | filter predicate child ih =>
    obtain ⟨behind, isAhead, rfl⟩ := stands
    exact (ih reads.1 isAhead.inner).filter _
  | aggregate aggregation child _ =>
    obtain ⟨-, finished, replays⟩ := stands
    have suffix := suffix_of_listed replays.inner
    rw [finished] at suffix
    exact suffix
  | insert => exact stands.elim
  | delete => exact stands.elim

theorem configured_of_ahead {plan : Plan} {inner : plan.Inner} {rest : List Line}
    (stands : plan.Ahead origin inner rest) : plan.Configured inner := by
  induction plan generalizing rest with
  | filter predicate child ih =>
    obtain ⟨behind, isAhead, -⟩ := stands
    exact ih isAhead.inner
  | aggregate aggregation child _ => exact stands.1
  | _ => trivial

theorem configured_close {plan : Plan} {stage : Stage plan.Inner}
    (configured : plan.Configured stage.inner) : plan.Configured (plan.close stage).inner := by
  induction plan with
  | filter predicate child ih => exact ih configured
  | aggregate aggregation child ih => exact ⟨configured.1, ih configured.2⟩
  | _ => trivial

theorem configured_initial (plan : Plan) : plan.Configured plan.initial := by
  induction plan with
  | filter predicate child ih => exact ih
  | aggregate aggregation child ih => exact ⟨rfl, ih⟩
  | _ => trivial

structure Readable (origin : Store μ) (steps : Nat) (plan : Plan) : Prop where
  reads : plan.Reads origin.catalog
  short : plan.Within origin (2 ^ 31)
  enough : plan.Within origin steps

theorem readable_filtered {steps : Nat} {predicate : Predicate} {child : Plan}
    (readable : (filter predicate child).Readable origin steps) : child.Readable origin steps :=
  ⟨readable.reads.1, readable.short, readable.enough⟩

theorem readable_aggregated {steps : Nat} {aggregation : Aggregation} {child : Plan}
    (readable : (aggregate aggregation child).Readable origin steps) :
    child.Readable origin steps :=
  ⟨readable.reads.1, readable.short, readable.enough⟩

/-- One more row is added up. -/
theorem adding_ends {aggregation : Aggregation} {schema : Schema} (suits : aggregation.Over schema)
    {seen : List Line} {row : Row}
    (typed : ∀ line ∈ seen ++ [row.line], line.values.map Value.type = schema.types)
    (short : (seen ++ [row.line]).length < 2 ^ 31) {totals : Totals}
    (working : totals.aggregator = aggregation.after seen) :
    Action.Ends (adding row) (totals, store)
      (fun _ after => after = ({ totals with aggregator := aggregation.after (seen ++ [row.line]) },
        store)) fun _ _ => False := by
  have added : totals.aggregator.add row = .ok (aggregation.after (seen ++ [row.line])) := by
    rw [working]
    exact Aggregation.add_after suits typed short
  unfold adding
  rw [Action.ends_bind, Beside.ends_own, Action.ends_bind, Action.ends_ofFault, added]
  exact rfl

/-- The results are the lines of the aggregation, and the first of them is ahead. -/
theorem finishTotals_ends {aggregation : Aggregation} {schema : Schema}
    (suits : aggregation.Over schema) {lines : List Line}
    (typed : ∀ line ∈ lines, line.values.map Value.type = schema.types) {totals : Totals}
    (worked : totals.aggregator = aggregation.after lines) :
    Action.Ends (finishTotals aggregation.schema) (totals, store)
      (fun _ after => after.2 = store ∧ after.1.aggregator = totals.aggregator ∧
        after.1.rows.map Row.line = aggregation.lines lines ∧
        Stage.Ahead (AheadListed after.1.rows) after.1.replay (aggregation.lines lines))
      fun _ _ => False := by
  obtain ⟨rows, made, isLines⟩ := Aggregation.exists_rows suits typed
  rw [← worked] at made
  unfold finishTotals
  rw [Action.ends_bind, Beside.ends_own, Action.ends_bind, Action.ends_ofFault, made]
  exact ⟨rfl, rfl, isLines, ⟨rfl, rfl⟩, isLines⟩

/-- Rewinding an open plan puts its whole list ahead again, without summing anything up anew. -/
theorem rewind_ends (coherent : origin.Coherent) (few : origin.Few) {plan : Plan}
    (reads : plan.Reads origin.catalog) {stage : Stage plan.Inner} (opened : stage.opened = true)
    {rest : List Line} (stands : plan.Ahead origin stage.inner rest) :
    Action.Ends plan.rewind (stage, store)
      (fun _ after => after.2 = store ∧
        Stage.Ahead (plan.Ahead origin) after.1 (plan.lines origin)) fun _ _ => False := by
  induction plan generalizing rest with
  | values schema rows =>
    apply (Action.ends_bind _ _).mpr
    apply (Stage.ends_rewind opened).mpr
    exact ⟨rfl, ⟨opened, rfl⟩, rfl⟩
  | scan source =>
    obtain ⟨place, standsAt, -⟩ := stands
    apply (Action.ends_bind _ _).mpr
    apply (Stage.ends_rewind opened).mpr
    apply (Action.ends_within _ _ _).mpr
    apply (Action.ends_bind _ _).mpr
    apply (Cursor.ends_checkOpen standsAt.opened).mpr
    have first : Cursor.StandsAt source.file (Cursor.start stage.inner) 0 :=
      ⟨rfl, rfl, Nat.zero_le _, (Nat.zero_mul _).symm⟩
    exact ⟨rfl, ⟨opened, rfl⟩, 0, first, (table_of_reads coherent few reads).symm⟩
  | filter predicate child ih =>
    obtain ⟨behind, isAhead, -⟩ := stands
    apply (Action.ends_bind _ _).mpr
    apply (Stage.ends_rewind opened).mpr
    apply (Action.ends_within _ _ _).mpr
    apply Action.ends_of_never_fails (ih reads.1 isAhead.ready.opened isAhead.inner)
    intro _ after ⟨same, again⟩
    exact ⟨same, ⟨opened, rfl⟩, child.lines origin, again, rfl⟩
  | aggregate aggregation child _ =>
    obtain ⟨isOpen, lookahead, totals, below⟩ := stage
    obtain ⟨configured, finished, replays⟩ := stands
    apply (Action.ends_bind _ _).mpr
    apply (Stage.ends_rewind opened).mpr
    apply (Action.ends_within _ _ _).mpr
    apply (Beside.ends_onFirst _).mpr
    apply (Action.ends_within _ _ _).mpr
    apply (Action.ends_bind _ _).mpr
    apply (Stage.ends_rewind replays.ready.opened).mpr
    exact ⟨rfl, ⟨opened, rfl⟩, configured, finished, ⟨replays.ready.opened, rfl⟩, finished⟩
  | insert => exact stands.elim
  | delete => exact stands.elim

end Plan

variable [EvictionPolicy μ]

/-- No fetch fails in the store, no row that is read from it has lost a part of a text or will, and its
files have few pages. -/
structure Store.Steady (store : Store μ) : Prop where
  coherent : store.Coherent
  few : store.Few
  exact : store.Keeps RowTrait.exact
  hospitable : store.Hospitable

theorem Store.steady_of_saves (steady : origin.Steady) (saves : Saves origin store) :
    store.Steady where
  coherent := saves.coherent
  few := (few_iff_of_saves saves).mpr steady.few
  exact := saves.keeps _ steady.exact
  hospitable := hospitable_of_saves saves steady.hospitable

structure Given (origin : Store μ) (ahead : α → List Line → Prop) (rest : List Line)
    (found : Option Row) (after : α × Store μ) : Prop where
  saves : Store.Saves origin after.2
  line_eq : found.map Row.line = rest.head?
  ahead : ahead after.1 rest.tail

/-- The action never fails and gives out line by line what is ahead. -/
def Gives (origin : Store μ) (ahead : α → List Line → Prop)
    (produce : Action (α × Store μ) (Option Row)) : Prop :=
  ∀ {store inner rest}, Store.Saves origin store → ahead inner rest →
    Action.Ends produce (inner, store) (Given origin ahead rest) fun _ _ => False

namespace Stage

variable {ahead : α → List Line → Prop} {produce : Action (α × Store μ) (Option Row)}

theorem gives_next (gives : Gives origin ahead produce) :
    Gives origin (Ahead ahead) (next? produce) := by
  intro store stage rest saves stands
  rw [ends_next stands.ready]
  apply Action.ends_of_never_fails (gives saves stands.inner)
  intro found after given
  exact ⟨given.saves, given.line_eq, ⟨stands.ready.opened, stands.ready.lookahead_eq⟩, given.ahead⟩

/-- Each line that is turned down is one less ahead, so the turns suffice. -/
theorem firstPassing_ends {predicate : Predicate} (gives : Gives origin ahead produce) {turns : Nat}
    {stage : Stage α} {behind : List Line} (saves : Store.Saves origin store)
    (stands : Ahead ahead stage behind)
    (tested : ∀ line ∈ behind, predicate.testValues line.values =
      .ok (predicate.passes line.values)) (enough : behind.length < turns) :
    Action.Ends (firstPassing produce predicate.test turns) (stage, store)
      (Given origin (AheadPassing ahead predicate)
        (behind.filter fun line => predicate.passes line.values)) fun _ _ => False := by
  induction turns generalizing store stage behind with
  | zero => exact absurd enough (Nat.not_lt_zero _)
  | succ turns ih =>
    unfold firstPassing
    rw [Action.ends_bind]
    apply Action.ends_of_never_fails (gives_next gives saves stands)
    intro found after given
    cases behind with
    | nil =>
      obtain rfl := Option.map_eq_none_iff.mp given.line_eq
      exact ⟨given.saves, rfl, [], given.ahead, rfl⟩
    | cons line later =>
      obtain ⟨row, rfl, rfl⟩ := Option.map_eq_some_iff.mp given.line_eq
      have answer := tested row.line List.mem_cons_self
      dsimp only
      rw [Action.ends_bind, Action.ends_ofExcept, Predicate.test_eq]
      change predicate.testValues row.values = .ok (predicate.passes row.values) at answer
      rw [answer]
      cases passed : predicate.passes row.values with
      | true =>
        have kept : (row.line :: later).filter (fun line => predicate.passes line.values) =
            row.line :: later.filter fun line => predicate.passes line.values :=
          List.filter_cons_of_pos passed
        rw [kept]
        exact ⟨given.saves, rfl, later, given.ahead, rfl⟩
      | false =>
        have dropped : (row.line :: later).filter (fun line => predicate.passes line.values) =
            later.filter fun line => predicate.passes line.values :=
          List.filter_cons_of_neg (by rw [Row.line, passed]; exact Bool.false_ne_true)
        rw [dropped]
        have fewer : later.length < turns := Nat.lt_of_succ_lt_succ enough
        exact ih given.saves given.ahead
          (fun line member => tested line (List.mem_cons_of_mem _ member)) fewer

theorem gives_passing {predicate : Predicate} {steps : Nat} (gives : Gives origin ahead produce)
    (tested : ∀ inner rest, ahead inner rest → ∀ line ∈ rest,
      predicate.testValues line.values = .ok (predicate.passes line.values))
    (short : ∀ inner rest, ahead inner rest → rest.length < steps) :
    Gives origin (AheadPassing ahead predicate) (firstPassing produce predicate.test steps) := by
  intro store stage rest saves stands
  obtain ⟨behind, isAhead, rfl⟩ := stands
  exact firstPassing_ends gives saves isAhead (tested _ _ isAhead.inner) (short _ _ isAhead.inner)

end Stage

namespace Plan

theorem gives_listed (rows : List Row) :
    Gives origin (AheadListed rows) (produceListed rows) := by
  intro store position rest saves stands
  have head : rows[position]?.map Row.line = rest.head? := by
    rw [← stands, List.head?_map, List.head?_drop]
  have tail : (rows.drop (position + 1)).map Row.line = rest.tail := by
    rw [← stands, ← List.map_tail, List.tail_drop]
  unfold produceListed
  rw [Action.ends_bind, Beside.ends_own]
  dsimp only
  by_cases inside : position < rows.length
  · rw [if_pos inside, Action.ends_bind, Beside.ends_modifyOwn]
    exact ⟨saves, head, tail⟩
  · rw [if_neg inside]
    have nothing : ∀ later, position ≤ later → rows.drop later = [] :=
      fun later past => List.drop_eq_nil_of_le (by omega)
    have still : (rows.drop position).map Row.line = rest.tail := by
      rw [← tail, nothing position (Nat.le_refl _), nothing (position + 1) (Nat.le_succ _)]
    exact ⟨saves, head, still⟩

theorem gives_scanned (steady : origin.Steady) {source : ScanSource}
    (registered : origin.catalog.file? source.file.table = some source.file) :
    Gives origin (AheadScanned origin source) (produceScanned source) := by
  intro store cursor rest saves stands
  obtain ⟨place, standsAt, rfl⟩ := stands
  have now := Store.steady_of_saves steady saves
  have registeredNow : store.catalog.file? source.file.table = some source.file :=
    saves.catalog_eq.symm ▸ registered
  have same := Store.lines_of_saves steady.coherent saves registered
  apply Action.ends_imp (produceScanned_ends now.coherent registeredNow standsAt)
  · intro found after outcome
    obtain ⟨later, sought, schema⟩ := outcome
    obtain ⟨line, next, standsNext, tail⟩ := Store.lines_of_sought sought schema
    -- The row shows what a page keeps of it, and that is all of it.
    have whole : found.map (fun row => row.line.kept) = found.map Row.line := by
      cases found with
      | none => rfl
      | some row =>
        obtain ⟨index, -, shows, -⟩ := sought
        have uncut : row.values.map Value.kept = row.values := shows.keeps _ now.exact
        rw [Option.map_some, Option.map_some, Line.kept, Row.line, uncut]
    rw [whole, same] at line
    rw [same, same] at tail
    exact ⟨Store.saves_trans saves later, line, next, standsNext, tail⟩
  · exact fun _ _ failure => absurd now.hospitable failure.2.1

/-- Whatever the plan, it gives out what is ahead of it. -/
theorem produce_gives (steady : origin.Steady) {steps : Nat} {plan : Plan}
    (readable : plan.Readable origin steps) :
    Gives origin (plan.Ahead origin) (plan.produce steps) := by
  induction plan with
  | values schema rows => exact gives_listed rows
  | scan source =>
    obtain ⟨table, built⟩ := readable.reads
    exact gives_scanned steady (registered_of_scanAs steady.coherent.sound built)
  | filter predicate child ih =>
    have below := readable_filtered readable
    obtain ⟨-, column, there, comparable⟩ := readable.reads
    apply Stage.gives_passing (ih below)
    · intro inner rest stands line member
      have typed := types_of_reads steady.coherent steady.few below.reads line
        ((suffix_of_ahead steady.coherent steady.few below.reads stands).subset member)
      exact Predicate.testValues_eq there comparable typed
    · intro inner rest stands
      have suffix := suffix_of_ahead steady.coherent steady.few below.reads stands
      exact Nat.lt_of_le_of_lt suffix.length_le (length_lines_lt below.enough below.reads)
  | aggregate aggregation child _ =>
    intro store inner rest saves stands
    obtain ⟨totals, stage⟩ := inner
    obtain ⟨configured, finished, replays⟩ := stands
    apply (Beside.ends_onFirst _).mpr
    unfold produceTotals onReplay
    rw [Action.ends_bind, Beside.ends_own, Action.ends_within]
    apply Action.ends_of_never_fails (Stage.gives_next (gives_listed totals.rows) saves replays)
    intro found after given
    exact ⟨given.saves, given.line_eq, configured, finished, given.ahead⟩
  | insert => exact readable.reads.elim
  | delete => exact readable.reads.elim

/-- All that is ahead of the stage below is added up. -/
theorem forEach_adding_ends {aggregation : Aggregation} {schema : Schema}
    (suits : aggregation.Over schema) {ahead : α → List Line → Prop}
    {produce : Action (α × Store μ) (Option Row)} (gives : Gives origin ahead produce)
    (seen : List Line) {rest : List Line}
    (typed : ∀ line ∈ seen ++ rest, line.values.map Value.type = schema.types)
    (short : (seen ++ rest).length < 2 ^ 31) {turns : Nat} (enough : rest.length < turns)
    {totals : Totals} {stage : Stage α} (saves : Store.Saves origin store)
    (stands : Stage.Ahead ahead stage rest)
    (working : totals.aggregator = aggregation.after seen) :
    Action.Ends (Stage.forEach produce adding turns) ((totals, stage), store)
      (fun _ after => Store.Saves origin after.2 ∧
        after.1.1.aggregator = aggregation.after (seen ++ rest) ∧
        Stage.Ahead ahead after.1.2 []) fun _ _ => False := by
  -- Each turn moves one line from what is ahead to what has been added up.
  induction turns generalizing store seen rest totals stage with
  | zero => exact absurd enough (Nat.not_lt_zero _)
  | succ turns ih =>
    unfold Stage.forEach
    rw [Action.ends_bind, Beside.ends_onSecond]
    apply Action.ends_of_never_fails (Stage.gives_next gives saves stands)
    intro found after given
    cases rest with
    | nil =>
      obtain rfl := Option.map_eq_none_iff.mp given.line_eq
      rw [List.append_nil]
      exact ⟨given.saves, working, given.ahead⟩
    | cons line later =>
      obtain ⟨row, rfl, rfl⟩ := Option.map_eq_some_iff.mp given.line_eq
      have split : seen ++ row.line :: later = (seen ++ [row.line]) ++ later := by simp
      rw [split] at typed short ⊢
      have shorter : (seen ++ [row.line]).length < 2 ^ 31 := by
        rw [List.length_append] at short
        omega
      dsimp only
      rw [Action.ends_bind, Beside.ends_onFirst]
      apply Action.ends_of_never_fails (adding_ends suits
        (fun line member => typed line (List.mem_append_left _ member)) shorter working)
      intro _ next same
      rw [same]
      exact ih _ typed short (Nat.lt_of_succ_lt_succ enough) given.saves given.ahead rfl

/-- Starting to sum up goes through all that the child gives out. -/
theorem start_aggregate_ends (steady : origin.Steady) {steps : Nat} {aggregation : Aggregation}
    {child : Plan} (readable : (aggregate aggregation child).Readable origin steps)
    {opened : Bool} {lookahead : Option Row} {totals : Totals} {below : Stage child.Inner}
    (configured : totals.aggregator.clear = aggregation.after [])
    (starts : Action.Ends (child.start steps) (below, store)
      (fun _ after => Store.Saves origin after.2 ∧
        Stage.Ahead (child.Ahead origin) after.1 (child.lines origin)) fun _ _ => False) :
    Action.Ends ((aggregate aggregation child).start steps)
      (⟨opened, lookahead, (totals, below)⟩, store)
      (fun _ after => Store.Saves origin after.2 ∧
        Stage.Ahead ((aggregate aggregation child).Ahead origin) after.1
          (aggregation.lines (child.lines origin))) fun _ _ => False := by
  have childReadable := readable_aggregated readable
  have typed := types_of_reads steady.coherent steady.few childReadable.reads
  have short := length_lines_lt childReadable.short childReadable.reads
  have enough := length_lines_lt childReadable.enough childReadable.reads
  obtain ⟨-, field, grouping, function, built⟩ := readable.reads
  have suits := over_of_aggregateOver built
  unfold Plan.start Stage.onInner
  apply (Action.ends_bind _ _).mpr
  apply (Action.ends_within _ _ _).mpr
  apply (Action.ends_bind _ _).mpr
  apply (Beside.ends_onSecond _).mpr
  apply Action.ends_of_never_fails starts
  intro _ started outcome
  obtain ⟨stage, store⟩ := started
  obtain ⟨later, isAhead⟩ := outcome
  apply (Action.ends_bind _ _).mpr
  apply (Beside.ends_onFirst _).mpr
  apply (Beside.ends_modifyOwn _).mpr
  apply (Action.ends_bind _ _).mpr
  have cleared : ({ totals with aggregator := totals.aggregator.clear } : Totals).aggregator =
      aggregation.after [] := configured
  apply Action.ends_of_never_fails (forEach_adding_ends suits (produce_gives steady childReadable)
    [] typed short enough later isAhead cleared)
  intro _ summed outcome
  obtain ⟨⟨totals, stage⟩, store⟩ := summed
  obtain ⟨saved, worked, atEnd⟩ := outcome
  apply (Beside.ends_onFirst _).mpr
  apply Action.ends_of_never_fails (finishTotals_ends suits typed worked)
  intro _ after finished
  obtain ⟨same, kept, isLines, replays⟩ := finished
  have clears : after.1.aggregator.clear = aggregation.aggregator.clear := by
    rw [kept, worked]
    rfl
  have savedAfter : Store.Saves origin after.2 := same.symm ▸ saved
  exact ⟨savedAfter, ⟨rfl, rfl⟩, ⟨clears, configured_of_ahead atEnd.inner⟩, isLines, replays⟩

/-- Starting a plan puts its whole list ahead, whatever was ahead of it before. -/
theorem start_ends (steady : origin.Steady) {steps : Nat} {plan : Plan}
    (readable : plan.Readable origin steps) {stage : Stage plan.Inner}
    (configured : plan.Configured stage.inner) (saves : Store.Saves origin store) :
    Action.Ends (plan.start steps) (stage, store)
      (fun _ after => Store.Saves origin after.2 ∧
        Stage.Ahead (plan.Ahead origin) after.1 (plan.lines origin)) fun _ _ => False := by
  induction plan generalizing store with
  | values schema rows => exact ⟨saves, ⟨rfl, rfl⟩, rfl⟩
  | scan source =>
    have stands : Cursor.StandsAt source.file (Cursor.start stage.inner) 0 :=
      ⟨rfl, rfl, Nat.zero_le _, (Nat.zero_mul _).symm⟩
    have whole := table_of_reads steady.coherent steady.few readable.reads
    exact ⟨saves, ⟨rfl, rfl⟩, 0, stands, whole.symm⟩
  | filter predicate child ih =>
    unfold Plan.start Stage.onInner
    apply (Action.ends_bind _ _).mpr
    apply (Action.ends_within _ _ _).mpr
    apply Action.ends_of_never_fails (ih (readable_filtered readable) configured saves)
    intro _ after outcome
    exact ⟨outcome.1, ⟨rfl, rfl⟩, child.lines origin, outcome.2, rfl⟩
  | aggregate aggregation child ih =>
    obtain ⟨opened, lookahead, totals, below⟩ := stage
    exact start_aggregate_ends steady readable configured.1
      (ih (readable_aggregated readable) configured.2 saves)
  | insert => exact readable.reads.elim
  | delete => exact readable.reads.elim

end Plan

end PagedStore
