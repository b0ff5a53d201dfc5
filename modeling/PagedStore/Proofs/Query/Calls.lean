import PagedStore.Proofs.Cache.Refinement
import PagedStore.Proofs.Scan.Fetching

/-!
An operator and its client. The client makes one call after the other, and between two calls the pool
may serve others. What the client has asked and been told is a history, and whether the operator is
open can be read off it: it is open if a start has succeeded and no close has come since. A start that
fails leaves the flag and the row that was produced ahead as they were, and an operator that is not
open tells nothing but that.
-/

namespace PagedStore

namespace Stage

variable {μ α γ : Type} {stage : Stage α} {store : Store μ}

structure SameFront (before after : Stage α) : Prop where
  opened_eq : after.opened = before.opened
  lookahead_eq : after.lookahead = before.lookahead

theorem onInner_ends (action : Action (α × Store μ) γ) (stage : Stage α) (store : Store μ) :
    Action.Ends (onInner action) (stage, store) (fun _ after => stage.SameFront after.1)
      fun _ after => stage.SameFront after.1 := by
  unfold onInner
  rw [Action.ends_within, Action.Ends]
  cases action (stage.inner, store) with
  | ok value after => exact ⟨rfl, rfl⟩
  | error fault after => exact ⟨rfl, rfl⟩

theorem ends_checkOpen_of_closed (closed : stage.opened = false)
    {done : Unit → Stage α × Store μ → Prop} {failed : Fault → Stage α × Store μ → Prop} :
    Action.Ends checkOpen (stage, store) done failed ↔
      failed (.error (.notOpen .operator)) (stage, store) := by
  unfold checkOpen
  rw [Action.ends_bind, Beside.ends_own, closed]
  rfl

theorem ends_hasNext_of_closed (closed : stage.opened = false)
    (produce : Action (α × Store μ) (Option Row)) {done : Bool → Stage α × Store μ → Prop}
    {failed : Fault → Stage α × Store μ → Prop} :
    Action.Ends (hasNext produce) (stage, store) done failed ↔
      failed (.error (.notOpen .operator)) (stage, store) := by
  unfold hasNext
  rw [Action.ends_bind, ends_checkOpen_of_closed closed]

theorem hasNext_keeps_opened (produce : Action (α × Store μ) (Option Row)) (stage : Stage α)
    (store : Store μ) :
    Action.Ends (hasNext produce) (stage, store)
      (fun _ after => after.1.opened = stage.opened)
      fun _ after => after.1.opened = stage.opened := by
  cases opened : stage.opened with
  | false =>
    rw [ends_hasNext_of_closed opened]
    exact opened
  | true =>
    unfold hasNext
    rw [Action.ends_bind, ends_checkOpen opened, Action.ends_bind, Beside.ends_own]
    cases ahead : stage.lookahead with
    | some row =>
      rw [if_neg (by rw [Option.isNone_some]; exact Bool.false_ne_true)]
      exact opened
    | none =>
      rw [if_pos Option.isNone_none, Action.ends_bind]
      apply Action.ends_imp (onInner_ends produce stage store)
      · intro row after same
        exact same.opened_eq.trans opened
      · intro fault after same
        exact same.opened_eq.trans opened

theorem next_keeps_opened (produce : Action (α × Store μ) (Option Row)) (stage : Stage α)
    (store : Store μ) :
    Action.Ends (next produce) (stage, store)
      (fun _ after => after.1.opened = stage.opened)
      fun _ after => after.1.opened = stage.opened := by
  unfold next
  rw [Action.ends_bind]
  apply Action.ends_imp (hasNext_keeps_opened produce stage store)
  · rintro _ ⟨asked, after⟩ same
    rw [Action.ends_bind, Beside.ends_own]
    cases ahead : asked.lookahead with
    | none => exact same
    | some row => exact same
  · intro fault after same
    exact same

theorem ends_next_of_closed (closed : stage.opened = false)
    (produce : Action (α × Store μ) (Option Row)) {done : Row → Stage α × Store μ → Prop}
    {failed : Fault → Stage α × Store μ → Prop} :
    Action.Ends (next produce) (stage, store) done failed ↔
      failed (.error (.notOpen .operator)) (stage, store) := by
  unfold next
  rw [Action.ends_bind, ends_hasNext_of_closed closed]

theorem ends_rewind (opened : stage.opened = true) {done : Unit → Stage α × Store μ → Prop}
    {failed : Fault → Stage α × Store μ → Prop} :
    Action.Ends rewind (stage, store) done failed ↔
      done () ({ stage with lookahead := none }, store) := by
  unfold rewind
  rw [Action.ends_bind, ends_checkOpen opened, Beside.ends_modifyOwn]

end Stage

namespace Plan

variable {μ : Type} {store : Store μ}

/-- Whatever the plan, its node is prepared first and its stage is opened only then. -/
theorem exists_start_eq [EvictionPolicy μ] (steps : Nat) (plan : Plan) :
    ∃ prepare : Action (plan.Inner × Store μ) Unit,
      plan.start steps = Stage.onInner prepare >>= fun _ => Stage.start := by
  cases plan <;> exact ⟨_, rfl⟩

theorem exists_rewind_eq (plan : Plan) :
    ∃ again : Action (plan.Inner × Store μ) Unit,
      plan.rewind = Stage.rewind >>= fun _ => Stage.onInner again := by
  cases plan <;> exact ⟨_, rfl⟩

theorem opened_close (plan : Plan) (stage : Stage plan.Inner) :
    (plan.close stage).opened = false := by
  cases plan <;> rfl

theorem start_ends_front [EvictionPolicy μ] (steps : Nat) (plan : Plan)
    (stage : Stage plan.Inner) (store : Store μ) :
    Action.Ends (plan.start steps) (stage, store)
      (fun _ after => after.1.opened = true ∧ after.1.lookahead = none)
      fun _ after => stage.SameFront after.1 := by
  rcases exists_start_eq (μ := μ) steps plan with ⟨prepare, isPrepared⟩
  rw [isPrepared, Action.ends_bind]
  apply Action.ends_imp (Stage.onInner_ends prepare stage store)
  · intro _ after _
    exact ⟨rfl, rfl⟩
  · intro fault after same
    exact same

theorem ends_rewind_of_closed (plan : Plan) {stage : Stage plan.Inner}
    (closed : stage.opened = false) {done : Unit → Stage plan.Inner × Store μ → Prop}
    {failed : Fault → Stage plan.Inner × Store μ → Prop} :
    Action.Ends plan.rewind (stage, store) done failed ↔
      failed (.error (.notOpen .operator)) (stage, store) := by
  rcases exists_rewind_eq (μ := μ) plan with ⟨again, isAgain⟩
  rw [isAgain, Action.ends_bind, Stage.rewind, Action.ends_bind,
    Stage.ends_checkOpen_of_closed closed]

theorem rewind_keeps_opened (plan : Plan) (stage : Stage plan.Inner) (store : Store μ) :
    Action.Ends plan.rewind (stage, store)
      (fun _ after => after.1.opened = stage.opened)
      fun _ after => after.1.opened = stage.opened := by
  cases opened : stage.opened with
  | false =>
    rw [ends_rewind_of_closed plan opened]
    exact opened
  | true =>
    rcases exists_rewind_eq (μ := μ) plan with ⟨again, isAgain⟩
    rw [isAgain, Action.ends_bind, Stage.ends_rewind opened]
    apply Action.ends_imp (Stage.onInner_ends again { stage with lookahead := none } store)
    · intro _ after same
      exact same.opened_eq.trans opened
    · intro fault after same
      exact same.opened_eq.trans opened

end Plan

namespace Operator

structure Exchange where
  call : Call
  reply : Except Fault Reply
deriving DecidableEq

/-- A call of the client, or a request of somebody else to the pool. -/
inductive Event where
  | call (call : Call)
  | ask (operation : Operation)

def opens (isOpen : Bool) : Exchange → Bool
  | ⟨.start, .ok _⟩ => true
  | ⟨.close, _⟩ => false
  | _ => isOpen

variable {μ : Type}

theorem ends_onState {α : Type} (action : (plan : Plan) → Action (Stage plan.Inner × Store μ) α)
    (operator : Operator) (store : Store μ) {done : α → Operator × Store μ → Prop}
    {failed : Fault → Operator × Store μ → Prop} :
    Action.Ends (onState action) (operator, store) done failed ↔
      Action.Ends (action operator.plan) (operator.state, store)
        (fun value after => done value (⟨operator.plan, after.1⟩, after.2))
        fun fault after => failed fault (⟨operator.plan, after.1⟩, after.2) := by
  simp only [Action.Ends, onState]
  cases action operator.plan (operator.state, store) <;> rfl

variable [EvictionPolicy μ] (steps : Nat)

def perform : Call → Action (Operator × Store μ) Reply
  | .start => do
      start steps
      pure .done
  | .close => do
      Beside.modifyOwn close
      pure .done
  | .rewind => do
      rewind
      pure .done
  | .hasNext => .more <$> hasNext steps
  | .next => .row <$> next steps

/-- The reply to a call, and the operator and the store after it. -/
def respond (state : Operator × Store μ) (call : Call) :
    Except Fault Reply × (Operator × Store μ) :=
  Action.outcome (perform steps call) state

def happen (state : Operator × Store μ) : Event → Operator × Store μ
  | .call call => (respond steps state call).2
  | .ask operation => (state.1, (state.2.outcome operation).2)

def after (state : Operator × Store μ) (events : List Event) : Operator × Store μ :=
  events.foldl (happen steps) state

def history (state : Operator × Store μ) : List Event → List Exchange
  | [] => []
  | .call call :: rest =>
      let (reply, next) := respond steps state call
      ⟨call, reply⟩ :: history next rest
  | .ask operation :: rest => history (happen steps state (.ask operation)) rest

theorem perform_keeps_opened (operator : Operator) (store : Store μ) (call : Call) :
    Action.Ends (perform steps call) (operator, store)
      (fun reply after => after.1.isOpen = opens operator.isOpen ⟨call, .ok reply⟩)
      fun fault after => after.1.isOpen = opens operator.isOpen ⟨call, .error fault⟩ := by
  cases call with
  | start =>
    unfold perform start
    rw [Action.ends_bind, ends_onState]
    apply Action.ends_imp (Plan.start_ends_front steps operator.plan operator.state store)
    · rintro _ after ⟨opened, -⟩
      exact opened
    · intro fault after same
      exact same.opened_eq
  | close => exact Plan.opened_close operator.plan operator.state
  | rewind =>
    unfold perform rewind
    rw [Action.ends_bind, ends_onState]
    exact Plan.rewind_keeps_opened operator.plan operator.state store
  | hasNext =>
    unfold perform hasNext
    rw [Action.ends_map, ends_onState]
    exact Stage.hasNext_keeps_opened (operator.plan.produce steps) operator.state store
  | next =>
    unfold perform next
    rw [Action.ends_map, ends_onState]
    exact Stage.next_keeps_opened (operator.plan.produce steps) operator.state store

theorem isOpen_respond (state : Operator × Store μ) (call : Call) :
    (respond steps state call).2.1.isOpen =
      opens state.1.isOpen ⟨call, (respond steps state call).1⟩ := by
  rcases Action.outcome_of_ends (perform_keeps_opened steps state.1 state.2 call) with
    ⟨reply, replied, isOpen⟩ | ⟨fault, failed, isOpen⟩
  · rw [respond, replied]
    exact isOpen
  · rw [respond, failed]
    exact isOpen

/-- Whether an operator is open can be read off what its client has been told. -/
theorem isOpen_after (state : Operator × Store μ) (events : List Event) :
    (after steps state events).1.isOpen =
      (history steps state events).foldl opens state.1.isOpen := by
  induction events generalizing state with
  | nil => rfl
  | cons event rest ih =>
    cases event with
    | call call =>
      have later := ih (respond steps state call).2
      rw [isOpen_respond] at later
      exact later
    | ask operation => exact ih (happen steps state (.ask operation))

theorem ends_perform_of_closed {operator : Operator} (closed : operator.isOpen = false)
    (store : Store μ) {call : Call} (asks : call.Asks) {done : Reply → Operator × Store μ → Prop}
    {failed : Fault → Operator × Store μ → Prop} :
    Action.Ends (perform steps call) (operator, store) done failed ↔
      failed (.error (.notOpen .operator)) (operator, store) := by
  rcases asks with rfl | rfl | rfl
  · unfold perform rewind
    rw [Action.ends_bind, ends_onState, Plan.ends_rewind_of_closed _ closed]
  · unfold perform hasNext
    rw [Action.ends_map, ends_onState, Stage.ends_hasNext_of_closed closed]
  · unfold perform next
    rw [Action.ends_map, ends_onState, Stage.ends_next_of_closed closed]

/-- An operator that is not open refuses, and nothing changes. -/
theorem respond_of_closed {operator : Operator} (closed : operator.isOpen = false)
    (store : Store μ) {call : Call} (asks : call.Asks) :
    respond steps (operator, store) call =
      (.error (.error (.notOpen .operator)), (operator, store)) := by
  have refuses : Action.Ends (perform steps call) (operator, store) (fun _ _ => False)
      fun fault after => fault = .error (.notOpen .operator) ∧ after = (operator, store) :=
    (ends_perform_of_closed steps closed store asks).mpr ⟨rfl, rfl⟩
  rcases Action.outcome_of_ends refuses with ⟨reply, -, impossible⟩ | ⟨fault, failed, rfl, same⟩
  · exact impossible.elim
  · exact Prod.ext failed same

end Operator

namespace Plan

variable {μ : Type} [EvictionPolicy μ] {steps : Nat}

/-- What is done to the stage of a plan is what a call of the operator does. -/
theorem start_responds (plan : Plan) (stage : Stage plan.Inner) (store : Store μ) :
    Action.Ends (plan.start steps) (stage, store)
      (fun _ after => Operator.respond steps (⟨plan, stage⟩, store) .start =
        (.ok .done, (⟨plan, after.1⟩, after.2)))
      fun fault after => Operator.respond steps (⟨plan, stage⟩, store) .start =
        (.error fault, (⟨plan, after.1⟩, after.2)) := by
  have told := Action.ends_outcome (Operator.perform steps .start) (⟨plan, stage⟩, store)
  unfold Operator.perform Operator.start at told
  rw [Action.ends_bind, Operator.ends_onState] at told
  exact told

theorem rewind_responds (plan : Plan) (stage : Stage plan.Inner) (store : Store μ) :
    Action.Ends plan.rewind (stage, store)
      (fun _ after => Operator.respond steps (⟨plan, stage⟩, store) .rewind =
        (.ok .done, (⟨plan, after.1⟩, after.2)))
      fun fault after => Operator.respond steps (⟨plan, stage⟩, store) .rewind =
        (.error fault, (⟨plan, after.1⟩, after.2)) := by
  have told := Action.ends_outcome (Operator.perform steps .rewind) (⟨plan, stage⟩, store)
  unfold Operator.perform Operator.rewind at told
  rw [Action.ends_bind, Operator.ends_onState] at told
  exact told

theorem hasNext_responds (plan : Plan) (stage : Stage plan.Inner) (store : Store μ) :
    Action.Ends (Stage.hasNext (plan.produce steps)) (stage, store)
      (fun more after => Operator.respond steps (⟨plan, stage⟩, store) .hasNext =
        (.ok (.more more), (⟨plan, after.1⟩, after.2)))
      fun fault after => Operator.respond steps (⟨plan, stage⟩, store) .hasNext =
        (.error fault, (⟨plan, after.1⟩, after.2)) := by
  have told := Action.ends_outcome (Operator.perform steps .hasNext) (⟨plan, stage⟩, store)
  unfold Operator.perform Operator.hasNext at told
  rw [Action.ends_map, Operator.ends_onState] at told
  exact told

theorem next_responds (plan : Plan) (stage : Stage plan.Inner) (store : Store μ) :
    Action.Ends (Stage.next (plan.produce steps)) (stage, store)
      (fun row after => Operator.respond steps (⟨plan, stage⟩, store) .next =
        (.ok (.row row), (⟨plan, after.1⟩, after.2)))
      fun fault after => Operator.respond steps (⟨plan, stage⟩, store) .next =
        (.error fault, (⟨plan, after.1⟩, after.2)) := by
  have told := Action.ends_outcome (Operator.perform steps .next) (⟨plan, stage⟩, store)
  unfold Operator.perform Operator.next at told
  rw [Action.ends_map, Operator.ends_onState] at told
  exact told

end Plan

end PagedStore
