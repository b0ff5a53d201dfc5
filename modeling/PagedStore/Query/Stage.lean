import PagedStore.Store.Beside

/-!
What all operators share: a flag that says whether the operator is open, and one row that it has
produced ahead of being asked. An operator adds a way to produce its next row, and the stage turns it
into `hasNext` and `next`.
-/

namespace PagedStore

structure Stage (α : Type) where
  opened : Bool
  /-- The row that was produced and not given out yet. -/
  lookahead : Option Row
  inner : α

namespace Stage

variable {μ α γ : Type}

def unopened (inner : α) : Stage α := ⟨false, none, inner⟩

def close (stage : Stage α) : Stage α := { stage with opened := false, lookahead := none }

def onInner (action : Action (α × Store μ) γ) : Action (Stage α × Store μ) γ :=
  Action.within (fun state => (state.1.inner, state.2))
    (fun part state => ({ state.1 with inner := part.1 }, part.2)) action

def start : Action (Stage α × Store μ) Unit :=
  Beside.modifyOwn fun stage => { stage with opened := true, lookahead := none }

def checkOpen : Action (Stage α × Store μ) Unit := do
  unless (← Beside.own).opened do Action.fail (.notOpen .operator)

def rewind : Action (Stage α × Store μ) Unit := do
  checkOpen
  Beside.modifyOwn fun stage => { stage with lookahead := none }

def hasNext (produce : Action (α × Store μ) (Option Row)) : Action (Stage α × Store μ) Bool := do
  checkOpen
  if (← Beside.own).lookahead.isNone then
    let row ← onInner produce
    Beside.modifyOwn fun stage => { stage with lookahead := row }
  pure (← Beside.own).lookahead.isSome

def next (produce : Action (α × Store μ) (Option Row)) : Action (Stage α × Store μ) Row := do
  let _ ← hasNext produce
  match (← Beside.own).lookahead with
  | none => Action.fail .exhausted
  | some row =>
      Beside.modifyOwn fun stage => { stage with lookahead := none }
      pure row

def next? (produce : Action (α × Store μ) (Option Row)) :
    Action (Stage α × Store μ) (Option Row) := do
  if ← hasNext produce then some <$> next produce else pure none

/-- Gives out rows until one passes the test, at most `steps` of them. -/
def firstPassing (produce : Action (α × Store μ) (Option Row)) (test : Row → Except Error Bool) :
    Nat → Action (Stage α × Store μ) (Option Row)
  | 0 => throw .outOfSteps
  | steps + 1 => do
      match ← next? produce with
      | none => pure none
      | some row =>
          if ← Action.ofExcept (test row) then pure (some row)
          else firstPassing produce test steps

def forEach (produce : Action (α × Store μ) (Option Row)) (apply : Row → Action (γ × Store μ) Unit) :
    Nat → Action ((γ × Stage α) × Store μ) Unit
  | 0 => throw .outOfSteps
  | steps + 1 => do
      match ← Beside.onSecond (next? produce) with
      | none => pure ()
      | some row =>
          Beside.onFirst (apply row)
          forEach produce apply steps

end Stage

end PagedStore
