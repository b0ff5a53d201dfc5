import PagedStore.Proofs.Query.Calls

/-!
After a start that has failed. If the operator was not open before, it hands out nothing until a later
start succeeds, whatever its plan is and whatever happens to the pool in the meantime. If it was open,
it stays open, with the row that it had produced ahead, and what it hands out is left over from the
earlier start or from the part of the later one that was done before the failure.
-/

namespace PagedStore.Operator

variable {μ : Type} [EvictionPolicy μ] (steps : Nat)

/-- No start has succeeded. -/
def Unstarted (exchanges : List Exchange) : Prop := ∀ reply, ⟨.start, .ok reply⟩ ∉ exchanges

theorem after_append (state : Operator × Store μ) (before later : List Event) :
    after steps state (before ++ later) = after steps (after steps state before) later :=
  List.foldl_append

theorem foldl_opens_of_unstarted {exchanges : List Exchange} (unstarted : Unstarted exchanges) :
    exchanges.foldl opens false = false := by
  induction exchanges with
  | nil => rfl
  | cons exchange rest ih =>
    have stays : opens false exchange = false := by
      rcases exchange with ⟨call, reply⟩
      cases call with
      | start =>
        cases reply with
        | ok reply => exact absurd List.mem_cons_self (unstarted reply)
        | error fault => rfl
      | close => rfl
      | rewind => rfl
      | hasNext => rfl
      | next => rfl
    rw [List.foldl_cons, stays]
    exact ih fun reply member => unstarted reply (List.mem_cons_of_mem _ member)

/-- A start that fails leaves the flag and the row that was produced ahead as they were. -/
theorem front_of_failed_start {operator : Operator} {store : Store μ} {fault : Fault}
    (failed : (respond steps (operator, store) .start).1 = .error fault) :
    (respond steps (operator, store) .start).2.1.isOpen = operator.isOpen ∧
      (respond steps (operator, store) .start).2.1.state.lookahead = operator.state.lookahead := by
  have front : Action.Ends (perform steps .start) (operator, store) (fun _ _ => True)
      fun _ after => after.1.isOpen = operator.isOpen ∧
        after.1.state.lookahead = operator.state.lookahead := by
    unfold perform start
    rw [Action.ends_bind, ends_onState]
    apply Action.ends_imp (Plan.start_ends_front steps operator.plan operator.state store)
    · intro _ after _
      exact trivial
    · intro fault after same
      exact ⟨same.opened_eq, same.lookahead_eq⟩
  exact Action.failed_of_outcome front failed

/-- A fresh operator is used in any way, and a start fails while the operator is not open. From then
on every question is refused until a start succeeds. -/
theorem silent_after_failed_start (plan : Plan) (store : Store μ) (before later : List Event)
    {fault : Fault} {call : Call}
    (shut : (history steps (ofPlan plan, store) before).foldl opens false = false)
    (failed : (respond steps (after steps (ofPlan plan, store) before) .start).1 = .error fault)
    (unstarted : Unstarted
      (history steps (after steps (ofPlan plan, store) (before ++ [.call .start])) later))
    (asks : call.Asks) :
    (respond steps
      (after steps (ofPlan plan, store) (before ++ [.call .start] ++ later)) call).1 =
        .error (.error (.notOpen .operator)) := by
  have closedBefore : (after steps (ofPlan plan, store) before).1.isOpen = false :=
    (isOpen_after steps (ofPlan plan, store) before).trans shut
  have closedThen :
      (after steps (ofPlan plan, store) (before ++ [.call .start])).1.isOpen = false := by
    rw [after_append]
    exact (front_of_failed_start steps failed).1.trans closedBefore
  have closedLater :
      (after steps (ofPlan plan, store) (before ++ [.call .start] ++ later)).1.isOpen = false := by
    rw [after_append, isOpen_after, closedThen]
    exact foldl_opens_of_unstarted unstarted
  exact congrArg Prod.fst (respond_of_closed steps closedLater _ asks)

/-- Deletes the row that is stored in the first slot of the table, and does not ask what is there. -/
def deletion : Plan :=
  .delete ⟨1⟩ (.values Store.oneRowFile.schema
    [⟨Store.oneRowFile.schema, [.integer 7], rfl, some (RecordId.ofSlot ⟨.file 0, 0⟩ 0)⟩])

/-- The row can be deleted only once, so the second start fails. The operator is still open from the
first one, and it hands out how many rows the second one had deleted when it failed. -/
theorem count_after_failed_start :
    history 3 (ofPlan deletion, Store.oneRowStore)
        [.call .start, .call .start, .call .hasNext, .call .next] =
      [⟨.start, .ok .done⟩,
        ⟨.start, .error (.error (.notOnPage (RecordId.ofSlot ⟨.file 0, 0⟩ 0)))⟩,
        ⟨.hasNext, .ok (.more true)⟩,
        ⟨.next, .ok (.row ⟨Plan.countSchema, [.integer 0], rfl, none⟩)⟩] := by
  decide +kernel

/-- After a close the same start fails as well, and nothing is handed out. -/
theorem silent_after_failed_start_of_deletion :
    ((history 3 (ofPlan deletion, Store.oneRowStore) [.call .start, .call .close]).foldl opens
          false = false ∧
      (respond 3 (after 3 (ofPlan deletion, Store.oneRowStore) [.call .start, .call .close])
        .start).1 = .error (.error (.notOnPage (RecordId.ofSlot ⟨.file 0, 0⟩ 0))) ∧
      Unstarted (history 3 (after 3 (ofPlan deletion, Store.oneRowStore)
        ([.call .start, .call .close] ++ [.call .start])) [.call .hasNext, .ask .evict])) ∧
    (respond 3 (after 3 (ofPlan deletion, Store.oneRowStore)
      ([.call .start, .call .close] ++ [.call .start] ++ [.call .hasNext, .ask .evict])) .next).1 =
        .error (.error (.notOpen .operator)) := by
  have shut : (history 3 (ofPlan deletion, Store.oneRowStore)
      [.call .start, .call .close]).foldl opens false = false := by decide +kernel
  have failed : (respond 3 (after 3 (ofPlan deletion, Store.oneRowStore)
      [.call .start, .call .close]) .start).1 =
        .error (.error (.notOnPage (RecordId.ofSlot ⟨.file 0, 0⟩ 0))) := by decide +kernel
  have told : history 3 (after 3 (ofPlan deletion, Store.oneRowStore)
      ([.call .start, .call .close] ++ [.call .start])) [.call .hasNext, .ask .evict] =
        [⟨.hasNext, .error (.error (.notOpen .operator))⟩] := by decide +kernel
  have unstarted : Unstarted (history 3 (after 3 (ofPlan deletion, Store.oneRowStore)
      ([.call .start, .call .close] ++ [.call .start])) [.call .hasNext, .ask .evict]) := by
    intro reply
    rw [told]
    simp
  exact ⟨⟨shut, failed, unstarted⟩,
    silent_after_failed_start 3 deletion Store.oneRowStore [.call .start, .call .close]
      [.call .hasNext, .ask .evict] shut failed unstarted (Or.inr (Or.inr rfl))⟩

end PagedStore.Operator
