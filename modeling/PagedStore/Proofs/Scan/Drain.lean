import PagedStore.Proofs.Scan.Cursor
import PagedStore.Query.Operator

/-!
Draining a scan. A stage that is open and has produced nothing ahead gives out what its operator
produces, one row at a time. A scan of a table that is drained gives out the rows of all its cells from
the left to the right under the columns of the scan, and it needs one step for each row and one more to
see the end.
-/

namespace PagedStore

namespace Stage

variable {μ α γ : Type} {stage : Stage α} {own : γ} {store : Store μ}

structure Ready (stage : Stage α) : Prop where
  opened : stage.opened = true
  lookahead_eq : stage.lookahead = none

theorem ends_checkOpen (opened : stage.opened = true) {done : Unit → Stage α × Store μ → Prop}
    {failed : Fault → Stage α × Store μ → Prop} :
    Action.Ends checkOpen (stage, store) done failed ↔ done () (stage, store) := by
  unfold checkOpen
  rw [Action.ends_bind, Beside.ends_own, opened]
  rfl

theorem ends_hasNext (ready : stage.Ready) (produce : Action (α × Store μ) (Option Row))
    {done : Bool → Stage α × Store μ → Prop} {failed : Fault → Stage α × Store μ → Prop} :
    Action.Ends (hasNext produce) (stage, store) done failed ↔
      Action.Ends produce (stage.inner, store)
        (fun row after => done row.isSome ({ stage with lookahead := row, inner := after.1 }, after.2))
        fun fault after => failed fault ({ stage with inner := after.1 }, after.2) := by
  rcases stage with ⟨isOpen, lookahead, inner⟩
  rcases ready with ⟨opened, nothing⟩
  dsimp only at opened nothing
  subst opened nothing
  unfold hasNext onInner
  rw [Action.ends_bind, ends_checkOpen rfl, Action.ends_bind, Beside.ends_own,
    if_pos Option.isNone_none, Action.ends_bind, Action.ends_within]
  rfl

theorem ends_hasNext_of_lookahead (opened : stage.opened = true) {row : Row}
    (ahead : stage.lookahead = some row) (produce : Action (α × Store μ) (Option Row))
    {done : Bool → Stage α × Store μ → Prop} {failed : Fault → Stage α × Store μ → Prop} :
    Action.Ends (hasNext produce) (stage, store) done failed ↔ done true (stage, store) := by
  rcases stage with ⟨isOpen, lookahead, inner⟩
  dsimp only at opened ahead
  subst opened ahead
  rfl

theorem ends_next_of_lookahead (opened : stage.opened = true) {row : Row}
    (ahead : stage.lookahead = some row) (produce : Action (α × Store μ) (Option Row))
    {done : Row → Stage α × Store μ → Prop} {failed : Fault → Stage α × Store μ → Prop} :
    Action.Ends (next produce) (stage, store) done failed ↔
      done row ({ stage with lookahead := none }, store) := by
  rcases stage with ⟨isOpen, lookahead, inner⟩
  dsimp only at opened ahead
  subst opened ahead
  rfl

theorem ends_next (ready : stage.Ready) (produce : Action (α × Store μ) (Option Row))
    {done : Option Row → Stage α × Store μ → Prop} {failed : Fault → Stage α × Store μ → Prop} :
    Action.Ends (next? produce) (stage, store) done failed ↔
      Action.Ends produce (stage.inner, store)
        (fun row after => done row ({ stage with inner := after.1 }, after.2))
        fun fault after => failed fault ({ stage with inner := after.1 }, after.2) := by
  unfold next?
  rw [Action.ends_bind, ends_hasNext ready]
  rcases stage with ⟨isOpen, lookahead, inner⟩
  rcases ready with ⟨opened, nothing⟩
  dsimp only at opened nothing
  subst opened nothing
  dsimp only
  suffices same : ∀ (row : Option Row) (after : α × Store μ),
      Action.Ends (if row.isSome then some <$> next produce else pure none)
        (⟨true, row, after.1⟩, after.2) done failed ↔ done row (⟨true, none, after.1⟩, after.2) by
    simp only [same]
  intro row after
  cases row with
  | none => rfl
  | some row =>
    rw [Option.isSome_some, if_pos rfl, Action.ends_map, ends_next_of_lookahead rfl rfl]

theorem ends_forEach_succ (produce : Action (α × Store μ) (Option Row))
    (apply : Row → Action (γ × Store μ) Unit) (turns : Nat)
    {done : Unit → (γ × Stage α) × Store μ → Prop}
    {failed : Fault → (γ × Stage α) × Store μ → Prop} :
    Action.Ends (forEach produce apply (turns + 1)) ((own, stage), store) done failed ↔
      Action.Ends (next? produce) (stage, store)
        (fun found after => match found with
          | none => done () ((own, after.1), after.2)
          | some row => Action.Ends (apply row) (own, after.2)
              (fun _ last => Action.Ends (forEach produce apply turns) ((last.1, after.1), last.2)
                done failed)
              fun fault last => failed fault ((last.1, after.1), last.2))
        fun fault after => failed fault ((own, after.1), after.2) := by
  rw [forEach, Action.ends_bind, Beside.ends_onSecond]
  apply Iff.of_eq
  congr 1
  funext found after
  cases found with
  | none => rfl
  | some row =>
    apply propext
    dsimp only
    rw [Action.ends_bind, Beside.ends_onFirst]

end Stage

namespace Plan

variable {μ : Type} {store : Store μ} {source : ScanSource} {cursor : Cursor}

theorem types_schema (source : ScanSource) : source.schema.types = source.file.schema.types := by
  simp [ScanSource.schema, Schema.aliased, Schema.types, Column.named]

theorem make_of_shows {index : Nat} {row : Row} (shows : store.Shows source.file index row) :
    ∃ renamed, Row.make source.schema row.values = .ok renamed ∧
      renamed.schema = source.schema ∧ renamed.values = row.values := by
  have lengths : row.values.length = source.schema.arity := by
    rw [← Schema.length_types, types_schema, ← shows.types_eq, List.length_map]
  refine ⟨⟨source.schema, row.values, lengths, none⟩, ?_, rfl, rfl⟩
  rw [Row.make, Row.ofValues?, dif_pos lengths]

theorem ends_counting (apply : Row → Action (Store μ) Frame) (row : Row) (tally : RowCount)
    {done : Unit → RowCount × Store μ → Prop} {failed : Fault → RowCount × Store μ → Prop} :
    Action.Ends (counting apply row) (tally, store) done failed ↔
      Action.Ends (apply row) store
        (fun _ after => done () ({ tally with count := tally.count + 1 }, after))
        fun fault after => failed fault (tally, after) := by
  unfold counting
  rw [Action.ends_bind, Beside.ends_onStore]
  rfl

variable [EvictionPolicy μ]

theorem produceScanned_ends (coherent : store.Coherent)
    (registered : store.catalog.file? source.file.table = some source.file) {place : Nat}
    (stands : Cursor.StandsAt source.file cursor place) :
    Action.Ends (produceScanned source) (cursor, store)
      (fun found after => Store.Saves store after.2 ∧
        Cursor.Sought store source.file place found after ∧
        ∀ row ∈ found, row.schema = source.schema)
      fun fault after => fault = .error .outOfPages ∧ ¬ store.Hospitable ∧
        Store.Saves store after.2 := by
  unfold produceScanned
  rw [Action.ends_bind]
  apply Action.ends_imp (Cursor.hasNext_ends coherent registered stands)
  · rintro flag ⟨cursor, after⟩ ⟨saves, found, sought, rfl, rfl, result⟩
    cases found with
    | none =>
      rcases result with ⟨bare, beyond, past, isBeyond, standsBeyond⟩
      refine ⟨saves, ⟨bare, beyond, past, isBeyond, ?_⟩, fun row absent => by contradiction⟩
      exact ⟨standsBeyond.opened, rfl, standsBeyond.slot_le, standsBeyond.place_eq⟩
    | some row =>
      rcases result with ⟨index, next, shows, standsNext⟩
      rcases make_of_shows shows with ⟨renamed, made, schema, values⟩
      have opened : ({ sought with found := some row } : Cursor).opened = true := standsNext.opened
      rw [Option.isSome_some, if_pos rfl, Action.ends_bind,
        Cursor.ends_next_of_found opened rfl, Action.ends_bind, made, Action.ends_ofFault]
      refine ⟨saves, ⟨index, next, ?_, ?_⟩, ?_⟩
      · refine ⟨shows.record_eq, ?_, ?_, ?_⟩
        · exact values ▸ shows.cell_eq
        · exact values ▸ shows.types_eq
        · exact values ▸ shows.keeps
      · exact ⟨standsNext.opened, rfl, standsNext.slot_le, standsNext.place_eq⟩
      · intro row same
        obtain rfl := Option.mem_some.mp same
        exact schema
  · intro fault after failure
    exact failure

theorem ends_start_scan (steps : Nat) (stage : Stage Cursor)
    {done : Unit → Stage Cursor × Store μ → Prop} {failed : Fault → Stage Cursor × Store μ → Prop} :
    Action.Ends (start steps (.scan source)) (stage, store) done failed ↔
      done () (⟨true, none, Cursor.start stage.inner⟩, store) :=
  Iff.rfl

def collect (row : Row) : Action (List Row × Store μ) Unit := Beside.modifyOwn (· ++ [row])

/-- Opens a plan and takes all its rows, in at most so many turns. -/
def drain (steps : Nat) (plan : Plan) : Action (Store μ) (List Row) :=
  Action.within (fun store => (([], Stage.unopened plan.initial), store)) (fun state _ => state.2) do
    Beside.onSecond (plan.start steps)
    Stage.forEach (plan.produce steps) collect steps
    return (← get).1.1

end Plan

namespace Store

variable {μ : Type} {store : Store μ} {source : ScanSource}

/-- The rows of a table from a cell on, as a scan gives them out. -/
inductive Lists (store : Store μ) (source : ScanSource) : Nat → List Row → Prop where
  | bare {place : Nat}
      (bare : source.file.Bare store.current (store.cellCount source.file) place) :
      Lists store source place []
  | row {place index : Nat} {row : Row} {rows : List Row}
      (next : source.file.NextCell store.current (store.cellCount source.file) place index)
      (shows : store.Shows source.file index row) (schema : row.schema = source.schema)
      (rest : Lists store source (index + 1) rows) : Lists store source place (row :: rows)

variable [EvictionPolicy μ]

theorem lists_of_saves (coherent : store.Coherent) {after : Store μ} (saves : Saves store after)
    (registered : store.catalog.file? source.file.table = some source.file) {place : Nat}
    {rows : List Row} (lists : Lists after source place rows) : Lists store source place rows := by
  have sameCount := Cursor.cellCount_of_saves coherent saves registered
  induction lists with
  | bare bare =>
    rw [saves.current_eq, sameCount] at bare
    exact .bare bare
  | row next shows schema _ ih =>
    rw [saves.current_eq, sameCount] at next
    exact .row next (shows_of_saves saves shows) schema ih

theorem collect_ends (coherent : store.Coherent)
    (registered : store.catalog.file? source.file.table = some source.file)
    {stage : Stage Cursor} (ready : stage.Ready) {place : Nat}
    (stands : Cursor.StandsAt source.file stage.inner place) (taken : List Row) {steps : Nat}
    (enough : store.cellCount source.file - place < steps) :
    Action.Ends (Stage.forEach (Plan.produceScanned source) Plan.collect steps)
      ((taken, stage), store)
      (fun _ after => Saves store after.2 ∧ ∃ rows, after.1.1 = taken ++ rows ∧
        Lists store source place rows)
      fun fault after => fault = .error .outOfPages ∧ ¬ store.Hospitable ∧ Saves store after.2 := by
  induction steps generalizing store stage place taken with
  | zero => exact absurd enough (Nat.not_lt_zero _)
  | succ steps ih =>
    unfold Stage.forEach
    rw [Action.ends_bind, Beside.ends_onSecond, Stage.ends_next ready]
    apply Action.ends_imp (Plan.produceScanned_ends coherent registered stands)
    · rintro found ⟨cursor, after⟩ ⟨saves, sought, schema⟩
      cases found with
      | none => exact ⟨saves, [], (List.append_nil taken).symm, .bare sought.1⟩
      | some row =>
        rcases sought with ⟨index, next, shows, standsNext⟩
        have sameCount := Cursor.cellCount_of_saves coherent saves registered
        have registeredNow : after.catalog.file? source.file.table = some source.file :=
          saves.catalog_eq ▸ registered
        have enoughNext : after.cellCount source.file - (index + 1) < steps := by
          have forward := next.atLeast
          have inside := next.inside
          rw [sameCount]
          omega
        have readyNext : ({ stage with inner := cursor } : Stage Cursor).Ready :=
          ⟨ready.opened, ready.lookahead_eq⟩
        dsimp only
        rw [Action.ends_bind, Beside.ends_onFirst, Plan.collect, Beside.ends_modifyOwn]
        apply Action.ends_imp (ih saves.coherent registeredNow readyNext standsNext _ enoughNext)
        · rintro _ last ⟨later, rows, collected, lists⟩
          refine ⟨saves_trans saves later, row :: rows, ?_, ?_⟩
          · rw [collected, List.append_assoc]
            rfl
          · have listsBefore := lists_of_saves coherent saves registered lists
            exact .row next shows (schema row (Option.mem_some.mpr rfl)) listsBefore
        · rintro fault last ⟨rfl, unhospitable, later⟩
          exact ⟨rfl, fun hospitable => unhospitable (hospitable_of_saves saves hospitable),
            saves_trans saves later⟩
    · intro fault after failure
      exact failure

theorem drain_ends (coherent : store.Coherent)
    (registered : store.catalog.file? source.file.table = some source.file) {steps : Nat}
    (enough : store.cellCount source.file < steps) :
    Action.Ends (Plan.drain steps (.scan source)) store
      (fun rows after => Saves store after ∧ Lists store source 0 rows)
      fun fault after => fault = .error .outOfPages ∧ ¬ store.Hospitable ∧ Saves store after := by
  have ready : (⟨true, none, Cursor.start Cursor.unopened⟩ : Stage Cursor).Ready := ⟨rfl, rfl⟩
  have stands : Cursor.StandsAt source.file (Cursor.start Cursor.unopened) 0 :=
    ⟨rfl, rfl, Nat.zero_le _, (Nat.zero_mul _).symm⟩
  have collected := collect_ends coherent registered ready stands [] enough
  unfold Plan.drain
  rw [Action.ends_within, Action.ends_bind, Beside.ends_onSecond]
  apply (Plan.ends_start_scan steps _).mpr
  apply (Action.ends_bind _ _).mpr
  apply Action.ends_imp collected
  · rintro _ after ⟨saves, rows, taken, lists⟩
    exact ⟨saves, taken ▸ lists⟩
  · intro fault after failure
    exact failure

def scan (table : TableId) (name : Option String) : Action (Store μ) (List Row) := do
  let plan ← Action.ofExcept (Plan.scanAs (← get).catalog table name)
  let file ← Action.ofExcept ((← get).catalog.file table)
  plan.drain (cellCount (← get) file + 1)

end Store

end PagedStore
