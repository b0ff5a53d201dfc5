import PagedStore.Proofs.Query.Supply
import PagedStore.Proofs.Transparency

/-!
A plan that only reads is a cursor over its list. The cursor knows the rows and the number of those
that it has given out, or that it is not open. However the calls are mixed, and whatever is fetched,
evicted and flushed meanwhile, an operator answers each of them as the cursor does: the rows that are
produced ahead on every level of the plan cannot be seen from outside.
-/

namespace PagedStore

/-- Requests that change no table: they move pages in and out of memory and write them. -/
def Operation.Calm : Operation → Prop
  | insert _ _ _ | delete _ _ | discard _ => False
  | _ => True

namespace ListCursor

/-- The answer of a cursor over the rows, and the number of rows that it has given out by then; a
cursor that is not open has none. -/
def respond (rows : List Row) : Option Nat → Call → Except Fault Reply × Option Nat
  | _, .start => (.ok .done, some 0)
  | _, .close => (.ok .done, none)
  | none, _ => (.error (.error (.notOpen .operator)), none)
  | some _, .rewind => (.ok .done, some 0)
  | some given, .hasNext => (.ok (.more (given < rows.length)), some given)
  | some given, .next =>
      match rows[given]? with
      | some row => (.ok (.row row), some (given + 1))
      | none => (.error (.error .exhausted), some given)

def history (rows : List Row) (given : Option Nat) : List Operator.Event → List Operator.Exchange
  | [] => []
  | .call call :: rest =>
      let (reply, next) := respond rows given call
      ⟨call, reply⟩ :: history rows next rest
  | .ask _ :: rest => history rows given rest

end ListCursor

variable {μ α : Type} [EvictionPolicy μ] {origin store : Store μ}

theorem Store.saves_outcome (coherent : store.Coherent) {operation : Operation}
    (calm : operation.Calm) : Saves store (store.outcome operation).2 := by
  have saves : Action.Ends (Store.perform operation) store (fun _ after => Saves store after)
      fun _ after => Saves store after := by
    unfold Store.perform
    cases operation with
    | fetch id =>
      rw [Action.ends_bind]
      apply Action.ends_imp (fetch_ends coherent id)
      · exact fun _ _ fetched => fetched.1
      · exact fun _ _ ⟨_, _, _, saves⟩ => saves
    | evict =>
      rw [Action.ends_bind]
      apply Action.ends_imp (evict_ends coherent)
      · exact fun _ _ ⟨_, saves, _⟩ => saves
      · exact fun _ _ ⟨_, _, saves, _⟩ => saves
    | flushPage id =>
      rw [Action.ends_bind]
      exact Action.ends_of_never_fails (flushPage_ends coherent id) fun _ _ flushed => flushed.2.saves
    | flushTransaction transaction =>
      rw [Action.ends_bind]
      exact Action.ends_of_never_fails (flushTransaction_ends coherent transaction)
        fun _ _ flushed => flushed.1
    | flushAll =>
      rw [Action.ends_bind]
      exact Action.ends_of_never_fails (flushAll_ends coherent) fun _ _ flushed => flushed.1
    | _ => exact calm.elim
  exact Action.after_of_ends saves

namespace Stage

variable {ahead : α → List Line → Prop} {produce : Action (α × Store μ) (Option Row)}

/-- The stage is open and will give out the rest, of which it may have produced the first row. -/
def Facing (ahead : α → List Line → Prop) (stage : Stage α) (rest : List Line) : Prop :=
  stage.opened = true ∧
    match stage.lookahead with
    | none => ahead stage.inner rest
    | some row => ∃ later, rest = row.line :: later ∧ ahead stage.inner later

omit [EvictionPolicy μ] in
theorem facing_of_ahead {stage : Stage α} {rest : List Line} (stands : Ahead ahead stage rest) :
    Facing ahead stage rest := by
  refine ⟨stands.ready.opened, ?_⟩
  rw [stands.ready.lookahead_eq]
  exact stands.inner

/-- A stage that has looked ahead faces what it faced before. -/
theorem facing_of_given {stage : Stage α} {rest : List Line} (opened : stage.opened = true)
    (given : Given origin ahead rest stage.lookahead (stage.inner, store)) :
    Facing ahead stage rest := by
  refine ⟨opened, ?_⟩
  have line := given.line_eq
  have stands := given.ahead
  cases lookahead : stage.lookahead with
  | none =>
    rw [lookahead, Option.map_none, eq_comm, List.head?_eq_none_iff] at line
    rw [line] at stands ⊢
    exact stands
  | some row =>
    rw [lookahead, Option.map_some, eq_comm, List.head?_eq_some_iff] at line
    obtain ⟨later, rfl⟩ := line
    exact ⟨later, rfl, stands⟩

theorem hasNext_ends (gives : Gives origin ahead produce) {stage : Stage α} {rest : List Line}
    (facing : Facing ahead stage rest) (saves : Store.Saves origin store) :
    Action.Ends (hasNext produce) (stage, store)
      (fun more after => more = rest.head?.isSome ∧ after.1.opened = true ∧
        Given origin ahead rest after.1.lookahead (after.1.inner, after.2)) fun _ _ => False := by
  obtain ⟨opened, front⟩ := facing
  cases lookahead : stage.lookahead with
  | none =>
    rw [lookahead] at front
    rw [ends_hasNext ⟨opened, lookahead⟩]
    apply Action.ends_of_never_fails (gives saves front)
    intro found after given
    have asked : found.isSome = rest.head?.isSome := by
      rw [← given.line_eq, Option.isSome_map]
    exact ⟨asked, opened, given⟩
  | some row =>
    rw [lookahead] at front
    obtain ⟨later, rfl, stands⟩ := front
    rw [ends_hasNext_of_lookahead opened lookahead]
    have line : stage.lookahead.map Row.line = some row.line := by
      rw [lookahead, Option.map_some]
    exact ⟨rfl, opened, saves, line, stands⟩

/-- The next row is the first of the rest, if there is one. -/
theorem next_ends (gives : Gives origin ahead produce) {stage : Stage α} {rest : List Line}
    (facing : Facing ahead stage rest) (saves : Store.Saves origin store) :
    Action.Ends (next produce) (stage, store)
      (fun row after => rest.head? = some row.line ∧ Store.Saves origin after.2 ∧
        Facing ahead after.1 rest.tail)
      fun fault after => fault = .error .exhausted ∧ rest = [] ∧ Store.Saves origin after.2 ∧
        Facing ahead after.1 rest := by
  unfold next
  rw [Action.ends_bind]
  apply Action.ends_of_never_fails (hasNext_ends gives facing saves)
  intro _ ⟨asked, after⟩ ⟨_, opened, given⟩
  have line := given.line_eq
  have isFacing := facing_of_given opened given
  rw [Action.ends_bind, Beside.ends_own]
  dsimp only at line
  cases lookahead : asked.lookahead with
  | none =>
    rw [lookahead, Option.map_none, eq_comm, List.head?_eq_none_iff] at line
    exact ⟨rfl, line, given.saves, isFacing⟩
  | some row =>
    rw [lookahead, Option.map_some] at line
    exact ⟨line.symm, given.saves, opened, given.ahead⟩

end Stage

omit [EvictionPolicy μ] in
theorem Plan.exists_ahead_of_facing {plan : Plan} {stage : Stage plan.Inner} {rest : List Line}
    (facing : stage.Facing (plan.Ahead origin) rest) :
    ∃ later, plan.Ahead origin stage.inner later := by
  obtain ⟨-, front⟩ := facing
  cases lookahead : stage.lookahead with
  | none =>
    rw [lookahead] at front
    exact ⟨rest, front⟩
  | some row =>
    rw [lookahead] at front
    obtain ⟨later, -, stands⟩ := front
    exact ⟨later, stands⟩

namespace Operator

/-- The operator is at the same place in the list as a cursor that has given out this many rows, and
the tables are as they were at the beginning. -/
structure Mirrors (origin : Store μ) (plan : Plan) (rows : List Row) (given : Option Nat)
    (state : Operator × Store μ) : Prop where
  saves : Store.Saves origin state.2
  exists_stage : ∃ stage : Stage plan.Inner, state.1 = ⟨plan, stage⟩ ∧
    match given with
    | none => stage.opened = false ∧ plan.Configured stage.inner
    | some given => stage.Facing (plan.Ahead origin) ((rows.drop given).map Row.line)

variable {plan : Plan} {rows : List Row} {steps : Nat}

theorem mirrors_ofPlan (coherent : origin.Coherent) (plan : Plan) (rows : List Row) :
    Mirrors origin plan rows none (ofPlan plan, origin) :=
  ⟨Store.saves_refl coherent, Stage.unopened plan.initial, rfl, rfl, Plan.configured_initial plan⟩

abbrev Agrees (origin : Store μ) (plan : Plan) (rows : List Row) (given : Option Nat) (steps : Nat)
    (call : Call) (state : Operator × Store μ) : Prop :=
  Action.Ends (perform steps call) state
    (fun reply after => (ListCursor.respond rows given call).1 = .ok reply ∧
      Mirrors origin plan rows (ListCursor.respond rows given call).2 after)
    fun fault after => (ListCursor.respond rows given call).1 = .error fault ∧
      Mirrors origin plan rows (ListCursor.respond rows given call).2 after

theorem configured_of_mirrors {given : Option Nat} {stage : Stage plan.Inner}
    (mirrors : Mirrors origin plan rows given (⟨plan, stage⟩, store)) :
    plan.Configured stage.inner := by
  obtain ⟨-, same, isSame, place⟩ := mirrors
  obtain rfl : stage = same := by simpa using isSame
  cases given with
  | none => exact place.2
  | some given =>
    obtain ⟨later, stands⟩ := Plan.exists_ahead_of_facing place
    exact Plan.configured_of_ahead stands

theorem start_agrees (steady : origin.Steady) (readable : plan.Readable origin steps)
    (isLines : rows.map Row.line = plan.lines origin) {given : Option Nat}
    {state : Operator × Store μ} (mirrors : Mirrors origin plan rows given state) :
    Agrees origin plan rows given steps .start state := by
  obtain ⟨operator, store⟩ := state
  obtain ⟨stage, rfl, -⟩ := mirrors.exists_stage
  unfold Agrees perform start
  rw [Action.ends_bind, ends_onState]
  apply Action.ends_of_never_fails
    (Plan.start_ends steady readable (configured_of_mirrors mirrors) mirrors.saves)
  intro _ after ⟨saves, stands⟩
  rw [← isLines] at stands
  exact ⟨rfl, saves, after.1, rfl, Stage.facing_of_ahead stands⟩

theorem close_agrees {given : Option Nat} {state : Operator × Store μ}
    (mirrors : Mirrors origin plan rows given state) :
    Agrees origin plan rows given steps .close state := by
  obtain ⟨operator, store⟩ := state
  obtain ⟨stage, rfl, -⟩ := mirrors.exists_stage
  have configured := configured_of_mirrors mirrors
  have answer : ListCursor.respond rows given .close = (.ok .done, none) := by
    cases given <;> rfl
  unfold Agrees
  rw [answer]
  exact ⟨rfl, mirrors.saves, plan.close stage, rfl, plan.opened_close stage,
    Plan.configured_close configured⟩

theorem rewind_agrees (steady : origin.Steady) (readable : plan.Readable origin steps)
    (isLines : rows.map Row.line = plan.lines origin) {given : Nat}
    {state : Operator × Store μ} (mirrors : Mirrors origin plan rows (some given) state) :
    Agrees origin plan rows (some given) steps .rewind state := by
  obtain ⟨operator, store⟩ := state
  obtain ⟨stage, rfl, facing⟩ := mirrors.exists_stage
  obtain ⟨rest, stands⟩ := Plan.exists_ahead_of_facing facing
  unfold Agrees perform rewind
  rw [Action.ends_bind, ends_onState]
  apply Action.ends_of_never_fails (Plan.rewind_ends steady.coherent steady.few readable.reads
    facing.1 stands)
  intro _ after ⟨same, again⟩
  rw [← isLines] at again
  have saves : Store.Saves origin after.2 := same.symm ▸ mirrors.saves
  exact ⟨rfl, saves, after.1, rfl, Stage.facing_of_ahead again⟩

theorem hasNext_agrees (steady : origin.Steady) (readable : plan.Readable origin steps)
    {given : Nat} {state : Operator × Store μ}
    (mirrors : Mirrors origin plan rows (some given) state) :
    Agrees origin plan rows (some given) steps .hasNext state := by
  obtain ⟨operator, store⟩ := state
  obtain ⟨stage, rfl, facing⟩ := mirrors.exists_stage
  have more : ((rows.drop given).map Row.line).head?.isSome = decide (given < rows.length) := by
    rw [List.head?_map, Option.isSome_map, List.head?_drop]
    by_cases inside : given < rows.length <;> simp [inside]
  unfold Agrees perform hasNext
  rw [Action.ends_map, ends_onState]
  apply Action.ends_of_never_fails
    (Stage.hasNext_ends (Plan.produce_gives steady readable) facing mirrors.saves)
  intro asked after ⟨same, opened, found⟩
  rw [same, more]
  exact ⟨rfl, found.saves, after.1, rfl, Stage.facing_of_given opened found⟩

theorem next_agrees (steady : origin.Steady) (readable : plan.Readable origin steps)
    {given : Nat} {state : Operator × Store μ}
    (mirrors : Mirrors origin plan rows (some given) state) :
    Agrees origin plan rows (some given) steps .next state := by
  obtain ⟨operator, store⟩ := state
  obtain ⟨stage, rfl, facing⟩ := mirrors.exists_stage
  have head : ((rows.drop given).map Row.line).head? = rows[given]?.map Row.line := by
    rw [List.head?_map, List.head?_drop]
  have tail : ((rows.drop given).map Row.line).tail = (rows.drop (given + 1)).map Row.line := by
    rw [← List.map_tail, List.tail_drop]
  unfold Agrees perform next
  rw [Action.ends_map, ends_onState]
  apply Action.ends_imp (Stage.next_ends (Plan.produce_gives steady readable) facing mirrors.saves)
  · intro row after ⟨line, saves, isFacing⟩
    rw [head, Option.map_eq_some_iff] at line
    obtain ⟨found, isFound, same⟩ := line
    obtain rfl := Row.line_injective same
    have answer : ListCursor.respond rows (some given) .next =
        (.ok (.row found), some (given + 1)) := by
      simp only [ListCursor.respond, isFound]
    rw [tail] at isFacing
    rw [answer]
    exact ⟨rfl, saves, after.1, rfl, isFacing⟩
  · intro fault after ⟨isFault, atEnd, saves, isFacing⟩
    rw [atEnd, List.head?_nil, eq_comm, Option.map_eq_none_iff] at head
    have answer : ListCursor.respond rows (some given) .next =
        (.error (.error .exhausted), some given) := by
      simp only [ListCursor.respond, head]
    rw [answer, isFault]
    exact ⟨rfl, saves, after.1, rfl, isFacing⟩

/-- An operator that is not open refuses, as the cursor does. -/
theorem closed_agrees {call : Call} (asks : call.Asks) {state : Operator × Store μ}
    (mirrors : Mirrors origin plan rows none state) :
    Agrees origin plan rows none steps call state := by
  obtain ⟨operator, store⟩ := state
  obtain ⟨stage, rfl, closed, -⟩ := mirrors.exists_stage
  have answer : ListCursor.respond rows none call =
      (.error (.error (.notOpen .operator)), none) := by
    obtain rfl | rfl | rfl := asks <;> rfl
  unfold Agrees
  rw [answer]
  have shut : (⟨plan, stage⟩ : Operator).isOpen = false := closed
  exact (ends_perform_of_closed steps shut store asks).mpr ⟨rfl, mirrors⟩

theorem respond_agrees (steady : origin.Steady) (readable : plan.Readable origin steps)
    (isLines : rows.map Row.line = plan.lines origin) {given : Option Nat}
    {state : Operator × Store μ} (mirrors : Mirrors origin plan rows given state) (call : Call) :
    (respond steps state call).1 = (ListCursor.respond rows given call).1 ∧
      Mirrors origin plan rows (ListCursor.respond rows given call).2
        (respond steps state call).2 := by
  have agrees : Agrees origin plan rows given steps call state := by
    cases given with
    | none =>
      cases call with
      | start => exact start_agrees steady readable isLines mirrors
      | close => exact close_agrees mirrors
      | rewind => exact closed_agrees (Or.inl rfl) mirrors
      | hasNext => exact closed_agrees (Or.inr (Or.inl rfl)) mirrors
      | next => exact closed_agrees (Or.inr (Or.inr rfl)) mirrors
    | some given =>
      cases call with
      | start => exact start_agrees steady readable isLines mirrors
      | close => exact close_agrees mirrors
      | rewind => exact rewind_agrees steady readable isLines mirrors
      | hasNext => exact hasNext_agrees steady readable mirrors
      | next => exact next_agrees steady readable mirrors
  rcases Action.outcome_of_ends agrees with ⟨reply, replied, same, moved⟩ | ⟨fault, failed, same, moved⟩
  · exact ⟨replied.trans same.symm, moved⟩
  · exact ⟨failed.trans same.symm, moved⟩

theorem ask_mirrors {given : Option Nat} {state : Operator × Store μ}
    (mirrors : Mirrors origin plan rows given state) {operation : Operation}
    (calm : operation.Calm) :
    Mirrors origin plan rows given (happen steps state (.ask operation)) := by
  obtain ⟨stage, same, place⟩ := mirrors.exists_stage
  have saves := Store.saves_outcome mirrors.saves.coherent calm
  exact ⟨Store.saves_trans mirrors.saves saves, stage, same, place⟩

/-- Whatever is called and asked, the operator tells its client what the cursor tells. -/
theorem history_of_mirrors (steady : origin.Steady) (readable : plan.Readable origin steps)
    (isLines : rows.map Row.line = plan.lines origin) {given : Option Nat}
    {state : Operator × Store μ} (mirrors : Mirrors origin plan rows given state)
    {events : List Event} (calm : ∀ operation, .ask operation ∈ events → operation.Calm) :
    history steps state events = ListCursor.history rows given events := by
  induction events generalizing given state with
  | nil => rfl
  | cons event rest ih =>
    have later : ∀ operation, .ask operation ∈ rest → operation.Calm :=
      fun operation member => calm operation (List.mem_cons_of_mem _ member)
    cases event with
    | call call =>
      obtain ⟨same, moved⟩ := respond_agrees steady readable isLines mirrors call
      have told := ih moved later
      change ⟨call, (respond steps state call).1⟩ :: history steps (respond steps state call).2 rest =
        ⟨call, (ListCursor.respond rows given call).1⟩ ::
          ListCursor.history rows (ListCursor.respond rows given call).2 rest
      rw [same, told]
    | ask operation =>
      exact ih (ask_mirrors mirrors (calm operation List.mem_cons_self)) later

/-- A plan that reads is a cursor over its list, in every store that a client can bring about with
texts that fit and with fewer than 2^32 pages in each file. -/
theorem reads_as_list {origin : Store μ} (sound : origin.Sound) (unused : origin.pool.frames = [])
    (hospitable : origin.Hospitable) {requests : List Request}
    (fits : ∀ asked ∈ requests, asked.Fits) (few : (origin.serve requests).Few)
    (readable : plan.Readable (origin.serve requests) steps) :
    ∃ rows : List Row, rows.map Row.line = plan.lines (origin.serve requests) ∧
      ∀ events : List Event, (∀ operation, .ask operation ∈ events → operation.Calm) →
        history steps (ofPlan plan, origin.serve requests) events =
          ListCursor.history rows none events := by
  have coherent := (Store.coherent_of_unused sound unused).1
  have lasts := Store.lasts_serve coherent requests
  have steady : (origin.serve requests).Steady :=
    ⟨lasts.coherent, few, Store.exact_serve coherent (Store.keeps_of_unused unused _) fits,
      Store.hospitable_of_follows lasts.follows hospitable⟩
  obtain ⟨rows, isLines⟩ := Plan.exists_rows lasts.coherent few readable.reads
  exact ⟨rows, isLines, fun events calm =>
    history_of_mirrors steady readable isLines (mirrors_ofPlan lasts.coherent plan rows) calm⟩

/-- A table of integers that has one row, read through a pool that has room for one page. -/
def narrowStore : Store Eviction.Oblivious :=
  { Store.oneRowStore with pool := Pool.empty 1 .first Listing.byArrival }

def insertion (number : Int32) : Request :=
  .ask (.insert ⟨1⟩ (.file 0) ⟨Store.oneRowFile.schema, [.integer number], rfl, none⟩)

/-- Three more rows, of which the last one goes to a page of its own. -/
def insertions : List Request := [insertion 5, insertion 9, insertion 7]

def countedColumns : Schema :=
  (Schema.single (.named "null.a" .integer)).append
    (Schema.single (.named "COUNT(null.a)" .integer))

def largePairs : Plan :=
  .filter ⟨1, .equal, .integer 2⟩
    (.aggregate ⟨⟨.integer, .count, 0, some (0, .integer), []⟩, countedColumns⟩
      (.filter ⟨0, .greater, .integer 5⟩ (.scan ⟨Store.oneRowFile, "a", none⟩)))

theorem reads_as_list_of_pairs :
    (narrowStore.Sound ∧ narrowStore.pool.frames = [] ∧ narrowStore.Hospitable ∧
      (∀ asked ∈ insertions, asked.Fits) ∧ (narrowStore.serve insertions).Few ∧
      largePairs.Readable (narrowStore.serve insertions) 5) ∧
    ∃ rows : List Row,
      rows.map Row.line = [⟨countedColumns, [.integer 7, .integer 2], none⟩] ∧
      ∀ events : List Event, (∀ operation, .ask operation ∈ events → operation.Calm) →
        history 5 (ofPlan largePairs, narrowStore.serve insertions) events =
          ListCursor.history rows none events := by
  have sound : narrowStore.Sound := Store.sound_of_single rfl Store.whole_oneRowFile
  have hospitable : narrowStore.Hospitable :=
    ⟨Nat.one_pos, Eviction.obliging_of_picks (Or.inl rfl)⟩
  have fits : ∀ asked ∈ insertions, asked.Fits := by
    simp [insertions, insertion, Request.Fits, Operation.Brings, RowTrait.exact, Value.kept]
  have lines : largePairs.lines (narrowStore.serve insertions) =
      [⟨countedColumns, [.integer 7, .integer 2], none⟩] := by
    decide +kernel
  have few : (narrowStore.serve insertions).Few :=
    Store.few_of_single Store.oneRowFile "a" rfl (by decide +kernel)
  have four : ((narrowStore.serve insertions).table ⟨Store.oneRowFile, "a", none⟩).length = 4 := by
    decide +kernel
  have reads : largePairs.Reads narrowStore.catalog :=
    ⟨⟨⟨⟨.file 0, rfl⟩, .named "null.a" .integer, rfl, rfl⟩, 0, some 0, .count, rfl⟩,
      .named "COUNT(null.a)" .integer, rfl, rfl⟩
  have lasts := Store.lasts_serve (Store.coherent_of_unused sound rfl).1 insertions
  have within : ∀ bound, 4 < bound → largePairs.Within (narrowStore.serve insertions) bound :=
    fun bound more => Nat.lt_of_le_of_lt (Nat.le_of_eq four) more
  have readable : largePairs.Readable (narrowStore.serve insertions) 5 :=
    ⟨lasts.catalog_eq.symm ▸ reads, within _ (by decide), within 5 (by decide)⟩
  obtain ⟨rows, isLines, told⟩ := reads_as_list sound rfl hospitable fits few readable
  exact ⟨⟨sound, rfl, hospitable, fits, few, readable⟩, rows, isLines.trans lines, told⟩

def wideSource : ScanSource := ⟨Store.wideFile, "a", none⟩

def wideLine : Line := ⟨wideSource.schema, [.integer 7], some ⟨⟨.file 0, 0⟩, 0⟩⟩

theorem table_wideStore : Store.wideStore.table wideSource = [wideLine] := by
  have first : wideSource.lineAt? Store.wideStore.onPage 0 = some wideLine := by decide +kernel
  have next : wideSource.file.NextCell Store.wideStore.onPage
      (wideSource.file.extent Store.wideStore.disk * wideSource.file.slotCount) 0 0 :=
    ⟨Nat.le_refl _, by decide, fun earlier _ before => absurd before (Nat.not_lt_zero _)⟩
  rw [Store.table, ScanSource.lines_of_next next first, ScanSource.lines_of_bare]
  intro index behind inside
  have slots : Store.wideFile.slotCount = 1 := by decide
  have small : index < 4294967296 := inside
  have blank := Store.onPage_wideStore (Nat.pos_iff_ne_zero.mp behind) small
  change Store.wideFile.cell Store.wideStore.onPage index = none
  rw [HeapFile.cell, slots, Nat.div_one, if_pos small, blank]
  rfl

/-- A scan of that table gives nothing, where a cursor over its list gives the row. -/
theorem row_missed_by_scan :
    (Store.wideStore.Sound ∧ Store.wideStore.pool.frames = [] ∧ Store.wideStore.Hospitable ∧
      (Plan.scan wideSource).Readable Store.wideStore 5) ∧
    (Plan.scan wideSource).lines Store.wideStore = [wideLine] ∧
    ∀ rows : List Row, rows.map Row.line = [wideLine] →
      history 5 (ofPlan (.scan wideSource), Store.wideStore) [.call .start, .call .hasNext] ≠
        ListCursor.history rows none [.call .start, .call .hasNext] := by
  have sound : Store.wideStore.Sound := Store.sound_of_single rfl Store.whole_wideFile
  have hospitable : Store.wideStore.Hospitable :=
    ⟨Nat.one_pos, Eviction.obliging_of_picks (Or.inl rfl)⟩
  have within : ∀ bound, 1 < bound → (Plan.scan wideSource).Within Store.wideStore bound := by
    intro bound more
    rw [Plan.Within, table_wideStore]
    exact more
  refine ⟨⟨sound, rfl, hospitable, ⟨.file 0, rfl⟩, within _ (by decide), within 5 (by decide)⟩,
    table_wideStore, ?_⟩
  intro rows isLines same
  have counted := congrArg List.length isLines
  rw [List.length_map, List.length_singleton] at counted
  have told : history 5 (ofPlan (.scan wideSource), Store.wideStore) [.call .start, .call .hasNext] =
      [⟨.start, .ok .done⟩, ⟨.hasNext, .ok (.more false)⟩] := by decide +kernel
  rw [told] at same
  simp [ListCursor.history, ListCursor.respond, counted] at same

end Operator

end PagedStore
