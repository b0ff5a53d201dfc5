import PagedStore.Proofs.Query.Calls
import PagedStore.Proofs.Query.Typing

/-!
Type soundness of plans. A plan whose nodes were built against the catalog gives out rows of its columns
only, however it is called and whatever happens to the tables meanwhile: this is shown along the plan,
node by node, for producing a row, for starting, rewinding and closing, and from there for every sequence
of calls. No call hands a wrong number of values to a row. What can still break a contract is the average
whose count has come round to zero, and only while the plan is being started by a loop that has taken as
many turns as there are words.
-/

namespace PagedStore

open Beside

structure Totals.Typed (aggregation : Aggregation) (totals : Totals) : Prop where
  runs : aggregation.Runs totals.aggregator
  rows : ∀ row ∈ totals.rows, row.Fits aggregation.schema
  replay : Stage.Typed (fun _ => True) aggregation.schema totals.replay

namespace Plan

variable {μ : Type} {catalog : Catalog}

/-- The plan has been built against the catalog: whatever checks there are have been passed, and the
rows of a list fit its columns. -/
inductive Built (catalog : Catalog) : Plan → Prop where
  | values {schema : Schema} {rows : List Row} (fits : ∀ row ∈ rows, row.Fits schema) :
      Built catalog (values schema rows)
  | scan {table : TableId} {name : Option String} {plan : Plan}
      (made : scanAs catalog table name = .ok plan) : Built catalog plan
  | filter (predicate : Predicate) {child : Plan} (below : Built catalog child) :
      Built catalog (filter predicate child)
  | insert {transaction : Transaction} {table : TableId} {child plan : Plan}
      (below : Built catalog child) (made : insertInto catalog transaction table child = .ok plan) :
      Built catalog plan
  | delete (transaction : Transaction) {child : Plan} (below : Built catalog child) :
      Built catalog (delete transaction child)
  | aggregate {child plan : Plan} {field : Nat} {grouping : Option Nat}
      {function : AggregateFunction} (below : Built catalog child)
      (made : aggregateOver child field grouping function = .ok plan) : Built catalog plan

theorem source_of_scanAs {table : TableId} {name : Option String} {plan : Plan}
    (made : scanAs catalog table name = .ok plan) :
    ∃ source, plan = scan source ∧ catalog.file? table = some source.file := by
  obtain ⟨info, -, same⟩ := Error.exists_of_bind made
  obtain rfl := Except.ok.inj same
  exact ⟨_, rfl, file_of_scanAs made⟩

theorem plan_of_insertInto {transaction : Transaction} {table : TableId} {child plan : Plan}
    (made : insertInto catalog transaction table child = .ok plan) :
    plan = insert transaction table child := by
  obtain ⟨expected, -, made⟩ := Error.exists_of_bind made
  split at made
  · exact (Except.ok.inj made).symm
  · contradiction

theorem aggregation_of_aggregateOver {child plan : Plan} {field : Nat} {grouping : Option Nat}
    {function : AggregateFunction} (made : aggregateOver child field grouping function = .ok plan) :
    ∃ aggregation, plan = aggregate aggregation child ∧ aggregation.Over child.schema := by
  obtain ⟨input, -, rest⟩ := Error.exists_of_bind made
  obtain ⟨key, -, rest⟩ := Error.exists_of_bind rest
  obtain ⟨aggregator, -, same⟩ := Error.exists_of_bind rest
  obtain rfl := Except.ok.inj same
  exact ⟨_, rfl, over_of_aggregateOver made⟩

def Typed : (plan : Plan) → plan.Inner → Prop
  | values _ _ => fun _ => True
  | scan source => Cursor.Typed source.file
  | filter _ child => Stage.Typed child.Typed child.schema
  | insert _ _ child | delete _ child =>
      Both (fun _ => True) (Stage.Typed child.Typed child.schema)
  | aggregate aggregation child =>
      Both (Totals.Typed aggregation) (Stage.Typed child.Typed child.schema)

/-- Somewhere in the plan there is an average whose count comes round to zero with the next row, and the
loops may take as many turns as that needs. -/
def Spent (steps : Nat) : (plan : Plan) → plan.Inner → Prop
  | values _ _ | scan _ => fun _ => False
  | filter _ child => fun stage => child.Spent steps (Stage.inner stage)
  | insert _ _ child | delete _ child => fun both => child.Spent steps both.2.inner
  | aggregate _ child => fun both =>
      (2 ^ 32 ≤ steps ∧ both.1.aggregator.Spent) ∨ child.Spent steps both.2.inner

theorem steps_of_spent {steps : Nat} {plan : Plan} {inner : plan.Inner}
    (spent : plan.Spent steps inner) : 2 ^ 32 ≤ steps := by
  induction plan with
  | values schema rows => exact spent.elim
  | scan source => exact spent.elim
  | filter predicate child ih => exact ih spent
  | insert _ _ child ih | delete _ child ih => exact ih spent
  | aggregate aggregation child ih => exact spent.elim And.left ih

theorem safe_produceListed {schema : Schema} {rows : List Row}
    (fits : ∀ row ∈ rows, row.Fits schema) :
    Safe (μ := μ) catalog (fun _ => True) schema.Admits (produceListed rows) := by
  apply respects_bind respects_own
  intro position _
  have given : Safe (μ := μ) catalog (fun _ : Nat => True) schema.Admits (pure rows[position]?) :=
    respects_pure fun row found => fits row (List.mem_of_getElem? found)
  dsimp only
  split
  · exact respects_bind (respects_modifyOwn fun _ _ => trivial) fun _ _ => given
  · exact given

theorem safe_produceCount :
    Safe (μ := μ) catalog (fun _ => True) countSchema.Admits produceCount := by
  apply respects_bind respects_own
  intro state _
  split
  · exact respects_pure (Schema.admits_none _)
  · refine respects_bind (respects_modifyOwn fun _ _ => trivial) ?_
    intro _ _
    rw [← bind_pure_comp]
    apply respects_bind (respects_ofFault (Row.exists_fitting rfl))
    exact fun _ fits => respects_pure (Schema.admits_some fits)

theorem safe_onReplay {γ : Type} {aggregation : Aggregation} {good : γ → Prop}
    {action : Action (Stage Nat × Store μ) γ}
    (safe : Safe catalog (Stage.Typed (fun _ => True) aggregation.schema) good action) :
    Safe catalog (Totals.Typed aggregation) good (onReplay action) :=
  respects_within Totals.replay (fun piece totals => { totals with replay := piece })
    (fun _ typed => typed.replay) (fun _ _ typed replays => ⟨typed.runs, typed.rows, replays⟩)
    (fun _ _ impossible => impossible) safe

theorem safe_produceTotals {aggregation : Aggregation} :
    Safe (μ := μ) catalog (Totals.Typed aggregation) aggregation.schema.Admits produceTotals := by
  apply respects_bind respects_own
  intro totals typed
  exact safe_onReplay (Stage.safe_next? (safe_produceListed typed.rows))

/-- Making rows of the results never fails: each has one value for each column of the aggregation. -/
theorem safe_finishTotals {aggregation : Aggregation} {schema : Schema}
    (suits : aggregation.Over schema) :
    Safe (μ := μ) catalog (Totals.Typed aggregation) (fun _ => True)
      (finishTotals aggregation.schema) := by
  apply respects_bind respects_own
  intro totals typed
  have results := Row.exists_fitting_rows (Aggregation.types_of_results suits typed.runs)
  apply respects_bind (respects_ofFault results)
  intro rows fits
  exact respects_modifyOwn fun _ typedNow => ⟨typedNow.runs, fits, Schema.admits_none _, trivial⟩

theorem safe_rewind (plan : Plan) :
    Safe (μ := μ) catalog (Stage.Typed plan.Typed plan.schema) (fun _ => True) plan.rewind := by
  induction plan with
  | values schema rows => exact Stage.safe_rewind (respects_modifyOwn fun _ _ => trivial)
  | scan source => exact Stage.safe_rewind Cursor.safe_rewind
  | filter predicate child ih => exact Stage.safe_rewind ih
  | insert _ _ child _ | delete _ child _ =>
    exact Stage.safe_rewind (safe_onFirst (respects_modifyOwn fun _ _ => trivial))
  | aggregate aggregation child _ =>
    apply Stage.safe_rewind
    apply safe_onFirst
    exact safe_onReplay (Stage.safe_rewind (respects_modifyOwn fun _ _ => trivial))

theorem typed_close (plan : Plan) {stage : Stage plan.Inner}
    (typed : Stage.Typed plan.Typed plan.schema stage) :
    Stage.Typed plan.Typed plan.schema (plan.close stage) := by
  induction plan with
  | values schema rows => exact Stage.typed_emptied typed false
  | scan source => exact ⟨Schema.admits_none _, Schema.admits_none _⟩
  | filter predicate child ih => exact ⟨Schema.admits_none _, ih typed.inner⟩
  | insert _ _ child ih | delete _ child ih =>
    exact ⟨Schema.admits_none _, trivial, ih typed.inner.2⟩
  | aggregate aggregation child ih =>
    obtain ⟨totals, below⟩ := typed.inner
    have replay := Stage.typed_emptied totals.replay false
    exact ⟨Schema.admits_none _, ⟨totals.runs, totals.rows, replay⟩, ih below⟩

theorem typed_initial {plan : Plan} (built : plan.Built catalog) : plan.Typed plan.initial := by
  induction built with
  | values fits => trivial
  | scan made =>
    obtain ⟨source, rfl, -⟩ := source_of_scanAs made
    exact Schema.admits_none _
  | filter predicate _ ih => exact ⟨Schema.admits_none _, ih⟩
  | delete transaction _ ih => exact ⟨trivial, Schema.admits_none _, ih⟩
  | insert _ made ih =>
    obtain rfl := plan_of_insertInto made
    exact ⟨trivial, Schema.admits_none _, ih⟩
  | aggregate _ made ih =>
    obtain ⟨aggregation, rfl, suits⟩ := aggregation_of_aggregateOver made
    have empty : aggregation.aggregator.Typed := by
      intro group member
      rw [suits.groups_eq] at member
      contradiction
    exact ⟨⟨⟨rfl, empty⟩, fun _ absent => by contradiction, Schema.admits_none _, trivial⟩,
      Schema.admits_none _, ih⟩

variable [EvictionPolicy μ]

theorem safe_produceScanned {source : ScanSource}
    (registered : catalog.file? source.file.table = some source.file) :
    Safe (μ := μ) catalog (Cursor.Typed source.file) source.schema.Admits
      (produceScanned source) := by
  apply respects_bind (Cursor.safe_hasNext registered)
  intro more _
  split
  · apply respects_bind (Cursor.safe_next registered)
    intro stored fits
    have types : stored.values.map Value.type = source.schema.types := by
      rw [types_schema]
      exact (Row.fits_iff.mp fits).2
    apply respects_bind (respects_ofFault (Row.exists_fitting types))
    exact fun row renamed =>
      respects_pure (Schema.admits_some (Row.fits_stamped renamed stored.record))
  · exact respects_pure (Schema.admits_none _)

/-- Every node produces rows of its columns, and none needs an excuse for it. -/
theorem safe_produce (filed : catalog.Filed) (steps : Nat) {plan : Plan}
    (built : plan.Built catalog) :
    Safe (μ := μ) catalog plan.Typed plan.schema.Admits (plan.produce steps) := by
  induction built with
  | values fits => exact safe_produceListed fits
  | scan made =>
    obtain ⟨source, rfl, registered⟩ := source_of_scanAs made
    obtain rfl := Catalog.table_of_filed filed registered
    exact safe_produceScanned registered
  | filter predicate _ ih => exact Stage.safe_firstPassing ih predicate.test steps
  | insert _ made _ =>
    obtain rfl := plan_of_insertInto made
    exact safe_onFirst safe_produceCount
  | delete transaction _ _ => exact safe_onFirst safe_produceCount
  | aggregate _ made _ =>
    obtain ⟨aggregation, rfl, -⟩ := aggregation_of_aggregateOver made
    exact safe_onFirst safe_produceTotals

/-- Storing and deleting: the child is started, and then each of its rows is handed to the store. -/
theorem respects_counting {steps : Nat} {child : Plan}
    (produces : Safe (μ := μ) catalog child.Typed child.schema.Admits (child.produce steps))
    (starts : Respects (μ := μ) catalog (Stage.Typed child.Typed child.schema)
      (fun stage => child.Spent steps stage.inner) (fun _ => True) (child.start steps))
    {apply : Row → Action (Store μ) Frame}
    (applies : ∀ row, Safe (α := RowCount) catalog (fun _ => True) (fun _ => True)
      (onStore (apply row))) :
    Respects catalog (Both (fun _ => True) (Stage.Typed child.Typed child.schema))
      (fun both => child.Spent steps both.2.inner) (fun _ => True) (do
        onSecond (child.start steps)
        onFirst (modifyOwn fun _ => ⟨0, false⟩)
        Stage.forEach (child.produce steps) (counting apply) steps) := by
  have counts : ∀ row, Safe catalog (fun _ => True) (fun _ => True) (counting apply row) :=
    fun row => respects_bind (applies row) fun _ _ => respects_modifyOwn fun _ _ => trivial
  apply respects_bind (respects_onSecond starts)
  intro _ _
  refine respects_bind (respects_of_safe (safe_onFirst (respects_modifyOwn fun _ _ => trivial))) ?_
  intro _ _
  exact respects_of_safe (Stage.respects_forEach produces (fun row _ => counts row) steps)

omit [EvictionPolicy μ] in
/-- One more row that fits is added up and counted, unless the average is spent. -/
theorem adding_counts {aggregation : Aggregation} {schema : Schema}
    (suits : aggregation.Over schema) {row : Row} (fits : row.Fits schema) {rows : Nat}
    {totals : Totals} (typed : Totals.Typed aggregation totals)
    (counted : totals.aggregator.Counted rows) (store : Store μ) :
    Action.Ends (adding row) (totals, store)
      (fun _ after => after.2 = store ∧ Totals.Typed aggregation after.1 ∧
        after.1.aggregator.Counted (rows + 1))
      fun fault after => after = (totals, store) ∧ fault.Allowed totals.aggregator.Spent := by
  unfold adding
  rw [Action.ends_bind, Beside.ends_own, Action.ends_bind, Action.ends_ofFault]
  rcases Aggregation.runs_add suits typed.runs fits with
    ⟨changed, added, runs, counts⟩ | ⟨refused, spent⟩
  · rw [added]
    exact ⟨rfl, ⟨runs, typed.rows, typed.replay⟩, counts rows counted⟩
  · rw [refused]
    exact ⟨rfl, spent⟩

/-- The rows of the child fit, so only a spent average can refuse one of them, and that takes as many
turns of the loop as there are words. -/
theorem summing_counts {steps : Nat} {aggregation : Aggregation} {child : Plan}
    (suits : aggregation.Over child.schema)
    (produces : Safe (μ := μ) catalog child.Typed child.schema.Admits (child.produce steps))
    {rows turns : Nat} (budget : rows + turns ≤ steps) {totals : Totals} {stage : Stage child.Inner}
    {store : Store μ} (serves : store.Serves catalog) (typed : Totals.Typed aggregation totals)
    (counted : totals.aggregator.Counted rows)
    (below : Stage.Typed child.Typed child.schema stage) :
    Action.Ends (Stage.forEach (child.produce steps) adding turns) ((totals, stage), store)
      (fun _ after => after.2.Serves catalog ∧
        Both (Totals.Typed aggregation) (Stage.Typed child.Typed child.schema) after.1)
      fun fault after => after.2.Serves catalog ∧
        Both (Totals.Typed aggregation) (Stage.Typed child.Typed child.schema) after.1 ∧
        fault.Allowed (2 ^ 32 ≤ steps ∧ after.1.1.aggregator.Spent) := by
  -- The invariants of the body change from turn to turn, so the rule for loops does not apply.
  induction turns generalizing rows totals stage store with
  | zero => exact ⟨serves, ⟨typed, below⟩, trivial⟩
  | succ turns ih =>
    have draws : Safe (μ := μ) catalog
        (Both (fun totals => Totals.Typed aggregation totals ∧ totals.aggregator.Counted rows)
          (Stage.Typed child.Typed child.schema))
        child.schema.Admits (onSecond (Stage.next? (child.produce steps))) :=
      safe_onSecond (Stage.safe_next? produces)
    unfold Stage.forEach
    rw [Action.ends_bind]
    apply Action.ends_imp (draws (totals, stage) store serves ⟨⟨typed, counted⟩, below⟩)
    · rintro found ⟨⟨totals, stage⟩, store⟩ ⟨servesNow, ⟨⟨typedNow, countedNow⟩, belowNow⟩, admits⟩
      cases found with
      | none => exact ⟨servesNow, typedNow, belowNow⟩
      | some row =>
        have fits := admits row rfl
        dsimp only
        rw [Action.ends_bind, Beside.ends_onFirst]
        apply Action.ends_imp (adding_counts suits fits typedNow countedNow store)
        · rintro _ ⟨added, _⟩ ⟨rfl, typedThen, countedThen⟩
          exact ih (by omega) servesNow typedThen countedThen belowNow
        · rintro fault _ ⟨rfl, allowed⟩
          refine ⟨servesNow, ⟨typedNow, belowNow⟩, Fault.allowed_imp (fun spent => ?_) allowed⟩
          have enough := Aggregator.rows_of_spent countedNow spent
          exact ⟨by omega, spent⟩
    · rintro fault ⟨both, store⟩ ⟨servesNow, ⟨⟨typedNow, _⟩, belowNow⟩, never⟩
      exact ⟨servesNow, ⟨typedNow, belowNow⟩, Fault.allowed_imp False.elim never⟩

/-- Summing up: the child is started, and then its rows are added up from nothing. -/
theorem respects_summing {steps : Nat} {aggregation : Aggregation} {child : Plan}
    (suits : aggregation.Over child.schema)
    (produces : Safe (μ := μ) catalog child.Typed child.schema.Admits (child.produce steps))
    (starts : Respects (μ := μ) catalog (Stage.Typed child.Typed child.schema)
      (fun stage => child.Spent steps stage.inner) (fun _ => True) (child.start steps)) :
    Respects (μ := μ) catalog
      (Both (Totals.Typed aggregation) (Stage.Typed child.Typed child.schema))
      (fun both => (2 ^ 32 ≤ steps ∧ both.1.aggregator.Spent) ∨ child.Spent steps both.2.inner)
      (fun _ => True) (do
        onSecond (child.start steps)
        onFirst (modifyOwn fun totals => { totals with aggregator := totals.aggregator.clear })
        Stage.forEach (child.produce steps) adding steps
        onFirst (finishTotals aggregation.schema)) := by
  apply respects_bind
    (respects_imp (respects_onSecond starts) (fun _ => Or.inr) fun _ isGood => isGood)
  rintro _ _ ⟨totals, stage⟩ store serves ⟨typed, below⟩
  rw [Action.ends_bind, Beside.ends_onFirst, Beside.ends_modifyOwn, Action.ends_bind]
  have cleared : Totals.Typed aggregation
      { totals with aggregator := totals.aggregator.clear } :=
    ⟨Aggregation.runs_clear typed.runs, typed.rows, typed.replay⟩
  have counted : totals.aggregator.clear.Counted 0 := by
    intro group member
    contradiction
  apply Action.ends_imp
    (summing_counts suits produces (Nat.le_of_eq (Nat.zero_add steps)) serves cleared counted below)
  · rintro _ ⟨both, store⟩ ⟨servesNow, typedNow⟩
    apply Action.ends_imp
      (safe_onFirst (safe_finishTotals suits) both store servesNow typedNow)
    · exact fun _ _ finished => finished
    · exact fun _ _ ⟨servesThen, typedThen, never⟩ =>
        ⟨servesThen, typedThen, Fault.allowed_imp False.elim never⟩
  · rintro fault after ⟨servesNow, typedNow, allowed⟩
    exact ⟨servesNow, typedNow, Fault.allowed_imp Or.inl allowed⟩

/-- Starting a plan breaks no contract, and only a spent average is divided by zero. -/
theorem respects_start (filed : catalog.Filed) (steps : Nat) {plan : Plan}
    (built : plan.Built catalog) :
    Respects (μ := μ) catalog (Stage.Typed plan.Typed plan.schema)
      (fun stage => plan.Spent steps stage.inner) (fun _ => True)
      (plan.start steps) := by
  induction built with
  | values fits => exact Stage.respects_start (respects_modifyOwn fun _ _ => trivial)
  | scan made =>
    obtain ⟨source, rfl, -⟩ := source_of_scanAs made
    exact Stage.respects_start (respects_modifyOwn fun _ _ => Schema.admits_none _)
  | filter predicate _ ih => exact Stage.respects_start ih
  | @insert transaction table child plan below made ih =>
    obtain rfl := plan_of_insertInto made
    apply Stage.respects_start
    exact respects_counting (safe_produce filed steps below) ih (respects_insert transaction table)
  | delete transaction below ih =>
    apply Stage.respects_start
    exact respects_counting (safe_produce filed steps below) ih (respects_delete transaction)
  | aggregate below made ih =>
    obtain ⟨aggregation, rfl, suits⟩ := aggregation_of_aggregateOver made
    apply Stage.respects_start
    exact respects_summing suits (safe_produce filed steps below) ih

end Plan

namespace Operator

variable {μ : Type} {catalog : Catalog}

def Typed (operator : Operator) : Prop :=
  Stage.Typed operator.plan.Typed operator.plan.schema operator.state

def Spent (steps : Nat) (operator : Operator) : Prop :=
  operator.plan.Spent steps operator.state.inner

structure Stands (plan : Plan) (catalog : Catalog) (state : Operator × Store μ) : Prop where
  plan_eq : state.1.plan = plan
  serves : state.2.Serves catalog
  typed : state.1.Typed

/-- What an action on the state of a node respects, it respects in an operator that runs the node. -/
theorem ends_of_respects {α : Type} {plan : Plan} (excused : Operator → Prop) {good : α → Prop}
    {action : (plan : Plan) → Action (Stage plan.Inner × Store μ) α}
    (respects : Respects catalog (Stage.Typed plan.Typed plan.schema)
      (fun stage => excused ⟨plan, stage⟩) good (action plan))
    {state : Operator × Store μ} (stands : Stands plan catalog state) :
    Action.Ends (onState action) state
      (fun value after => Stands plan catalog after ∧ good value)
      fun fault after => Stands plan catalog after ∧ fault.Allowed (excused after.1) := by
  obtain ⟨⟨_, stage⟩, store⟩ := state
  obtain rfl := stands.plan_eq
  rw [ends_onState]
  apply Action.ends_imp (respects stage store stands.serves stands.typed)
  · exact fun _ _ ⟨serves, typed, isGood⟩ => ⟨⟨rfl, serves, typed⟩, isGood⟩
  · exact fun _ _ ⟨serves, typed, excuse⟩ => ⟨⟨rfl, serves, typed⟩, excuse⟩

theorem ends_of_safe {α : Type} {plan : Plan} {good : α → Prop}
    {action : (plan : Plan) → Action (Stage plan.Inner × Store μ) α}
    (safe : Safe catalog (Stage.Typed plan.Typed plan.schema) good (action plan))
    {state : Operator × Store μ} (stands : Stands plan catalog state) :
    Action.Ends (onState action) state
      (fun value after => Stands plan catalog after ∧ good value)
      fun fault after => Stands plan catalog after ∧ fault.Allowed False :=
  ends_of_respects (fun _ => False) safe stands

/-- If the reply is a row, it fits. -/
def Suits (schema : Schema) : Reply → Prop
  | .row row => row.Fits schema
  | _ => True

variable [EvictionPolicy μ] (steps : Nat)

theorem perform_stands (filed : catalog.Filed) {plan : Plan} (built : plan.Built catalog)
    {state : Operator × Store μ} (stands : Stands plan catalog state) (call : Call) :
    Action.Ends (perform steps call) state
      (fun reply after => Stands plan catalog after ∧ Suits plan.schema reply)
      fun fault after => Stands plan catalog after ∧
        fault.Allowed (call = .start ∧ after.1.Spent steps) := by
  have produces := Plan.safe_produce (μ := μ) filed steps built
  cases call with
  | start =>
    unfold perform start
    rw [Action.ends_bind]
    apply Action.ends_imp (ends_of_respects (Spent steps) (Plan.respects_start filed steps built) stands)
    · exact fun _ _ started => ⟨started.1, trivial⟩
    · exact fun _ _ ⟨standsNow, allowed⟩ => ⟨standsNow, Fault.allowed_imp (⟨rfl, ·⟩) allowed⟩
  | close =>
    obtain ⟨⟨_, stage⟩, store⟩ := state
    obtain rfl := stands.plan_eq
    exact ⟨⟨rfl, stands.serves, Plan.typed_close _ stands.typed⟩, trivial⟩
  | rewind =>
    unfold perform rewind
    rw [Action.ends_bind]
    apply Action.ends_imp (ends_of_safe (Plan.safe_rewind plan) stands)
    · exact fun _ _ rewound => ⟨rewound.1, trivial⟩
    · exact fun _ _ ⟨standsNow, never⟩ => ⟨standsNow, Fault.allowed_imp False.elim never⟩
  | hasNext =>
    unfold perform hasNext
    rw [Action.ends_map]
    apply Action.ends_imp (ends_of_safe (Stage.safe_hasNext produces) stands)
    · exact fun _ _ asked => ⟨asked.1, trivial⟩
    · exact fun _ _ ⟨standsNow, never⟩ => ⟨standsNow, Fault.allowed_imp False.elim never⟩
  | next =>
    unfold perform next
    rw [Action.ends_map]
    apply Action.ends_imp (ends_of_safe (Stage.safe_next produces) stands)
    · exact fun _ _ given => given
    · exact fun _ _ ⟨standsNow, never⟩ => ⟨standsNow, Fault.allowed_imp False.elim never⟩

theorem produce_stands (filed : catalog.Filed) {plan : Plan} (built : plan.Built catalog)
    {state : Operator × Store μ} (stands : Stands plan catalog state) :
    Action.Ends (produce steps) state
      (fun found after => Stands plan catalog after ∧ plan.schema.Admits found)
      fun fault after => Stands plan catalog after ∧ fault.Allowed False :=
  ends_of_safe (Stage.safe_onInner (Plan.safe_produce filed steps built)) stands

/-- Something that happens to an operator: an event, or that a row is drawn past its stage. -/
inductive Use where
  | event (event : Event)
  | draw

def use (state : Operator × Store μ) : Use → Operator × Store μ
  | .event event => happen steps state event
  | .draw => (Action.outcome (produce steps) state).2

def used (state : Operator × Store μ) (uses : List Use) : Operator × Store μ :=
  uses.foldl (use steps) state

theorem stands_use (filed : catalog.Filed) {plan : Plan} (built : plan.Built catalog)
    {state : Operator × Store μ} (stands : Stands plan catalog state) (once : Use) :
    Stands plan catalog (use steps state once) := by
  cases once with
  | event event =>
    cases event with
    | call call =>
      have performs := perform_stands steps filed built stands call
      exact Action.after_of_ends
        (Action.ends_imp performs (fun _ _ done => done.1) fun _ _ failed => failed.1)
    | ask operation =>
      exact ⟨stands.plan_eq, Store.serves_outcome stands.serves operation, stands.typed⟩
  | draw =>
    have produces := produce_stands steps filed built stands
    exact Action.after_of_ends
      (Action.ends_imp produces (fun _ _ done => done.1) fun _ _ failed => failed.1)

theorem stands_used (filed : catalog.Filed) {plan : Plan} (built : plan.Built catalog)
    {state : Operator × Store μ} (stands : Stands plan catalog state) (uses : List Use) :
    Stands plan catalog (used steps state uses) := by
  induction uses generalizing state with
  | nil => exact stands
  | cons once rest ih => exact ih (stands_use steps filed built stands once)

/-- What an operator may give and keep are rows of these columns, and nothing breaks a contract. Only a
spent average is divided by zero, while the operator is being started, and no loop of fewer turns than
there are words spends one. -/
structure TypeSafe (schema : Schema) (state : Operator × Store μ) : Prop where
  kept : state.1.Typed
  given : ∀ row, (respond steps state .next).1 = .ok (.row row) → row.Fits schema
  drawn : ∀ row, (Action.outcome (produce steps) state).1 = .ok (some row) → row.Fits schema
  calls : ∀ call, (respond steps state call).1 ≠ .error .brokenContract
  draws : (Action.outcome (produce steps) state).1 ≠ .error .brokenContract
  divides : ∀ call, (respond steps state call).1 = .error .dividedByZero →
    call = .start ∧ 2 ^ 32 ≤ steps ∧ (respond steps state call).2.1.Spent steps
  draws_whole : (Action.outcome (produce steps) state).1 ≠ .error .dividedByZero

/-- Every operator that runs a plan built against the catalog is type safe after every use, whatever
the files hold and whatever is asked of the store meanwhile. -/
theorem type_safe {origin : Store μ} (filed : origin.catalog.Filed)
    (unused : origin.pool.frames = []) {plan : Plan} (built : plan.Built origin.catalog)
    (uses : List Use) : TypeSafe steps plan.schema (used steps (ofPlan plan, origin) uses) := by
  have begins : Stands plan origin.catalog (ofPlan plan, origin) :=
    ⟨rfl, ⟨Store.orderly_of_unused filed unused, rfl⟩, Schema.admits_none _, Plan.typed_initial built⟩
  have stands := stands_used steps filed built begins uses
  have performs := perform_stands steps filed built stands
  have produces := produce_stands steps filed built stands
  refine ⟨stands.typed, ?_, ?_, ?_, ?_, ?_, ?_⟩
  · intro row given
    exact (Action.done_of_outcome (performs .next) given).2
  · intro row drawn
    exact (Action.done_of_outcome produces drawn).2 row rfl
  · intro call broken
    exact (Action.failed_of_outcome (performs call) broken).2
  · intro broken
    exact (Action.failed_of_outcome produces broken).2
  · intro call divided
    obtain ⟨isStart, spent⟩ := (Action.failed_of_outcome (performs call) divided).2
    exact ⟨isStart, Plan.steps_of_spent spent, spent⟩
  · intro divided
    exact (Action.failed_of_outcome produces divided).2

def averageColumns : Schema :=
  (Schema.single (.named "null.a" .integer)).append (Schema.single (.named "AVG(null.a)" .integer))

def largeNumbers : Plan :=
  .filter ⟨0, .greater, .integer 5⟩ (.scan ⟨Store.oneRowFile, "a", none⟩)

def averages : Plan :=
  .aggregate ⟨⟨.integer, .average, 0, some (0, .integer), []⟩, averageColumns⟩ largeNumbers

/-- Somebody else stores one more number, and of the two averages the first is drawn. -/
def averaging : List Use :=
  [.event (.ask (.insert ⟨1⟩ (.file 0) ⟨Store.oneRowFile.schema, [.integer 8],
    List.length_singleton, none⟩)), .event (.call .start), .draw]

theorem type_safe_of_averages :
    (Store.oneRowStore.catalog.Filed ∧ Store.oneRowStore.pool.frames = [] ∧
      averages.Built Store.oneRowStore.catalog) ∧
    (respond 3 (used 3 (ofPlan averages, Store.oneRowStore) averaging) .next).1 =
      .ok (.row ⟨averageColumns, [.integer 8, .integer 8], rfl, none⟩) ∧
    TypeSafe 3 averageColumns (used 3 (ofPlan averages, Store.oneRowStore) averaging) := by
  have filed : Store.oneRowStore.catalog.Filed :=
    Catalog.filed_add Catalog.filed_empty Store.oneRowFile "a"
  have scanned : Plan.scanAs Store.oneRowStore.catalog (.file 0) none =
      .ok (.scan ⟨Store.oneRowFile, "a", none⟩) := rfl
  have summed : largeNumbers.aggregateOver 0 (some 0) .average = .ok averages := rfl
  have built : averages.Built Store.oneRowStore.catalog := .aggregate (.filter _ (.scan scanned)) summed
  have given : (respond 3 (used 3 (ofPlan averages, Store.oneRowStore) averaging) .next).1 =
      .ok (.row ⟨averageColumns, [.integer 8, .integer 8], rfl, none⟩) := by
    decide +kernel
  exact ⟨⟨filed, rfl, built⟩, given, type_safe 3 filed rfl built averaging⟩

end Operator

end PagedStore
