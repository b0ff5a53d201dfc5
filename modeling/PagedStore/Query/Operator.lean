import PagedStore.Query.Plan
import PagedStore.Query.Stage
import PagedStore.Store.Cursor

/-!
Running a plan row by row. Each node of a plan has a state of its own shape inside a stage. Starting
a node starts its child; nodes that store, delete or sum up go through all rows of their child at
once, while they are started. Loops over the rows of a child take a bound on their number of steps,
since a table may grow while its rows are being read.
-/

namespace PagedStore

structure RowCount where
  count : Nat
  given : Bool
deriving DecidableEq

structure Totals where
  aggregator : Aggregator
  rows : List Row
  replay : Stage Nat

namespace Plan

def Inner : Plan → Type
  | values _ _ => Nat
  | scan _ => Cursor
  | filter _ child => Stage child.Inner
  | insert _ _ child => RowCount × Stage child.Inner
  | delete _ child => RowCount × Stage child.Inner
  | aggregate _ child => Totals × Stage child.Inner

def initial : (plan : Plan) → plan.Inner
  | values _ _ => (0 : Nat)
  | scan _ => Cursor.unopened
  | filter _ child => Stage.unopened child.initial
  | insert _ _ child => (⟨0, false⟩, Stage.unopened child.initial)
  | delete _ child => (⟨0, false⟩, Stage.unopened child.initial)
  | aggregate aggregation child =>
      (⟨aggregation.aggregator, [], Stage.unopened 0⟩, Stage.unopened child.initial)

variable {μ : Type}

def produceListed (rows : List Row) : Action (Nat × Store μ) (Option Row) := do
  let position ← Beside.own
  if position < rows.length then Beside.modifyOwn (· + 1)
  pure rows[position]?

def produceCount : Action (RowCount × Store μ) (Option Row) := do
  let state ← Beside.own
  if state.given then pure none
  else
    Beside.modifyOwn fun state => { state with given := true }
    some <$> Action.ofFault (Row.make countSchema [.integer (Int32.ofNat state.count)])

def onReplay {γ : Type} (action : Action (Stage Nat × Store μ) γ) : Action (Totals × Store μ) γ :=
  Action.within (fun state => (state.1.replay, state.2))
    (fun part state => ({ state.1 with replay := part.1 }, part.2)) action

def produceTotals : Action (Totals × Store μ) (Option Row) := do
  let rows := (← Beside.own).rows
  onReplay (Stage.next? (produceListed rows))

def finishTotals (schema : Schema) : Action (Totals × Store μ) Unit := do
  let results := (← Beside.own).aggregator.results
  let rows ← Action.ofFault (results.mapM (Row.make schema))
  Beside.modifyOwn fun totals => { totals with rows, replay := ⟨true, none, 0⟩ }

def rewind : (plan : Plan) → Action (Stage plan.Inner × Store μ) Unit
  | values _ _ => do
      Stage.rewind
      Stage.onInner (Beside.modifyOwn fun _ => (0 : Nat))
  | scan _ => do
      Stage.rewind
      Stage.onInner Cursor.rewind
  | filter _ child => do
      Stage.rewind
      Stage.onInner child.rewind
  | insert _ _ _ => do
      Stage.rewind
      Stage.onInner (Beside.onFirst (Beside.modifyOwn fun state => { state with given := false }))
  | delete _ _ => do
      Stage.rewind
      Stage.onInner (Beside.onFirst (Beside.modifyOwn fun state => { state with given := false }))
  | aggregate _ _ => do
      Stage.rewind
      Stage.onInner (Beside.onFirst (onReplay do
        Stage.rewind
        Stage.onInner (Beside.modifyOwn fun _ => 0)))

def close : (plan : Plan) → Stage plan.Inner → Stage plan.Inner
  | values _ _, stage => stage.close
  | scan _, stage => { stage.close with inner := Cursor.close stage.inner }
  | filter _ child, stage => { stage.close with inner := child.close stage.inner }
  | insert _ _ child, stage =>
      { stage.close with inner := (stage.inner.1, child.close stage.inner.2) }
  | delete _ child, stage =>
      { stage.close with inner := (stage.inner.1, child.close stage.inner.2) }
  | aggregate _ child, stage =>
      let totals : Totals := stage.inner.1
      { stage.close with
        inner := ({ totals with replay := totals.replay.close }, child.close stage.inner.2) }

variable [EvictionPolicy μ]

def produceScanned (source : ScanSource) : Action (Cursor × Store μ) (Option Row) := do
  if ← Cursor.hasNext source.file then
    let stored ← Cursor.next source.file
    let row ← Action.ofFault (Row.make source.schema stored.values)
    pure (some (row.stamped stored.record))
  else pure none

/-- Produces the next row of a node, or nothing at the end, without looking at its stage. -/
def produce (steps : Nat) : (plan : Plan) → Action (plan.Inner × Store μ) (Option Row)
  | values _ rows => produceListed rows
  | scan source => produceScanned source
  | filter predicate child => Stage.firstPassing (child.produce steps) predicate.test steps
  | insert _ _ _ => Beside.onFirst produceCount
  | delete _ _ => Beside.onFirst produceCount
  | aggregate _ _ => Beside.onFirst produceTotals

def counting (apply : Row → Action (Store μ) Frame) (row : Row) :
    Action (RowCount × Store μ) Unit := do
  let _ ← Beside.onStore (apply row)
  Beside.modifyOwn fun state => { state with count := state.count + 1 }

def adding (row : Row) : Action (Totals × Store μ) Unit := do
  let aggregator ← Action.ofFault ((← Beside.own).aggregator.add row)
  Beside.modifyOwn fun totals => { totals with aggregator }

/-- Opens a node in front of its first row. -/
def start (steps : Nat) : (plan : Plan) → Action (Stage plan.Inner × Store μ) Unit
  | values _ _ => do
      Stage.onInner (Beside.modifyOwn fun _ => (0 : Nat))
      Stage.start
  | scan _ => do
      Stage.onInner (Beside.modifyOwn Cursor.start)
      Stage.start
  | filter _ child => do
      Stage.onInner (child.start steps)
      Stage.start
  | insert transaction table child => do
      Stage.onInner do
        Beside.onSecond (child.start steps)
        Beside.onFirst (Beside.modifyOwn fun _ => ⟨0, false⟩)
        Stage.forEach (child.produce steps) (counting (Store.insert transaction table)) steps
      Stage.start
  | delete transaction child => do
      Stage.onInner do
        Beside.onSecond (child.start steps)
        Beside.onFirst (Beside.modifyOwn fun _ => ⟨0, false⟩)
        Stage.forEach (child.produce steps) (counting (Store.delete transaction)) steps
      Stage.start
  | aggregate aggregation child => do
      Stage.onInner do
        Beside.onSecond (child.start steps)
        Beside.onFirst (Beside.modifyOwn fun totals =>
          { totals with aggregator := totals.aggregator.clear })
        Stage.forEach (child.produce steps) adding steps
        Beside.onFirst (finishTotals aggregation.schema)
      Stage.start

end Plan

structure Operator where
  plan : Plan
  state : Stage plan.Inner

namespace Operator

variable {μ α : Type}

def ofPlan (plan : Plan) : Operator := ⟨plan, Stage.unopened plan.initial⟩

def isOpen (operator : Operator) : Bool := operator.state.opened

def close (operator : Operator) : Operator := ⟨operator.plan, operator.plan.close operator.state⟩

def onState (action : (plan : Plan) → Action (Stage plan.Inner × Store μ) α) :
    Action (Operator × Store μ) α := fun (operator, store) =>
  match action operator.plan (operator.state, store) with
  | .ok value (state, store) => .ok value (⟨operator.plan, state⟩, store)
  | .error fault (state, store) => .error fault (⟨operator.plan, state⟩, store)

def rewind : Action (Operator × Store μ) Unit := onState Plan.rewind

variable [EvictionPolicy μ] (steps : Nat)

def start : Action (Operator × Store μ) Unit := onState (Plan.start steps)

def hasNext : Action (Operator × Store μ) Bool :=
  onState fun plan => Stage.hasNext (plan.produce steps)

def next : Action (Operator × Store μ) Row := onState fun plan => Stage.next (plan.produce steps)

/-- Produces a row without looking at the flag and the row produced ahead. -/
def produce : Action (Operator × Store μ) (Option Row) :=
  onState fun plan => Stage.onInner (plan.produce steps)

end Operator

end PagedStore
