import PagedStore.Proofs.Pool.Standstill
import PagedStore.Proofs.Tracking

/-!
What the calls of an operator do to the store, whatever its plan. All but a start only fetch pages, so
what every fetch keeps holds across them. A start stores and deletes rows besides, so what insertions
and deletions keep as well holds across every call.
-/

namespace PagedStore

open PagedStore.Action

variable {μ : Type} {relation : Store μ → Store μ → Prop}

theorem Beside.tracks_of_spans {α γ : Type} {action : Action (α × Store μ) γ}
    (spans : Spans relation action) : Tracks relation Prod.snd action :=
  fun state => spans state.1 state.2

/-- A change beside the store is not seen in the store. -/
theorem Beside.tracks_change [IsPreorder (Store μ) relation] {α : Type} (change : α → α) :
    Tracks relation Prod.snd (modifyOwn (μ := μ) change) :=
  tracks_modifyOwn fun _ _ => rfl

namespace Plan

variable [IsPreorder (Store μ) relation]

theorem tracks_produceListed (rows : List Row) :
    Tracks relation Prod.snd (produceListed (μ := μ) rows) := by
  apply tracks_bind Beside.tracks_own
  intro position
  have gives : Tracks relation Prod.snd (pure rows[position]? : Action (Nat × Store μ) _) :=
    tracks_pure _
  split
  · exact tracks_bind (Beside.tracks_change _) fun _ => gives
  · exact gives

theorem tracks_produceCount : Tracks relation Prod.snd (produceCount (μ := μ)) := by
  apply tracks_bind Beside.tracks_own
  intro state
  split
  · exact tracks_pure none
  · apply tracks_bind (Beside.tracks_change _)
    exact fun _ => tracks_map some (tracks_ofFault _)

omit [IsPreorder (Store μ) relation] in
theorem tracks_onReplay {γ : Type} {action : Action (Stage Nat × Store μ) γ}
    (tracks : Tracks relation Prod.snd action) : Tracks relation Prod.snd (onReplay action) := by
  refine tracks_within ?_ ?_ tracks
  · exact fun _ => rfl
  · exact fun _ _ => rfl

theorem tracks_produceTotals : Tracks relation Prod.snd (produceTotals (μ := μ)) := by
  apply tracks_bind Beside.tracks_own
  intro totals
  apply tracks_onReplay
  exact Stage.tracks_next?_of_produces _ (fun _ _ => rfl) (tracks_produceListed totals.rows)

theorem tracks_replay : Tracks relation Prod.snd (onReplay (μ := μ) do
    Stage.rewind
    Stage.onInner (Beside.modifyOwn fun _ => 0)) := by
  apply tracks_onReplay
  apply tracks_bind (Stage.tracks_rewind Prod.snd fun _ _ => rfl)
  exact fun _ => Stage.tracks_onInner _ (fun _ _ => rfl) (Beside.tracks_change _)

theorem tracks_finishTotals (schema : Schema) :
    Tracks relation Prod.snd (finishTotals (μ := μ) schema) := by
  apply tracks_bind Beside.tracks_own
  intro totals
  apply tracks_bind (tracks_ofFault _)
  exact fun rows => Beside.tracks_change _

theorem tracks_adding (row : Row) : Tracks relation Prod.snd (adding (μ := μ) row) := by
  apply tracks_bind Beside.tracks_own
  intro totals
  apply tracks_bind (tracks_ofFault _)
  exact fun _ => Beside.tracks_change _

theorem tracks_counting {apply : Row → Action (Store μ) Frame}
    (applies : ∀ row, Tracks relation (fun store => store) (apply row)) (row : Row) :
    Tracks relation Prod.snd (counting apply row) :=
  tracks_bind (Beside.tracks_onStore _ (fun _ _ => rfl) (applies row))
    fun _ => Beside.tracks_change _

/-- To start over costs nothing: no page is looked at. -/
theorem tracks_rewind (plan : Plan) : Tracks relation Prod.snd (plan.rewind (μ := μ)) := by
  have again {α : Type} : Tracks relation Prod.snd (Stage.rewind (μ := μ) (α := α)) :=
    Stage.tracks_rewind Prod.snd fun _ _ => rfl
  have ungiven {α : Type} : Tracks relation Prod.snd (Stage.onInner (Beside.onFirst
      (Beside.modifyOwn fun state => { state with given := false })) :
        Action (Stage (RowCount × α) × Store μ) Unit) := by
    apply Stage.tracks_onInner Prod.snd fun _ _ => rfl
    exact Beside.tracks_onFirst _ (fun _ _ _ => rfl) (Beside.tracks_change _)
  induction plan with
  | values schema rows =>
    exact tracks_bind again fun _ => Stage.tracks_onInner Prod.snd (fun _ _ => rfl)
      (Beside.tracks_change _)
  | scan source =>
    apply tracks_bind again
    intro _
    apply Stage.tracks_onInner Prod.snd fun _ _ => rfl
    apply tracks_bind
    · apply tracks_bind Beside.tracks_own
      intro cursor
      cases cursor.opened with
      | true => exact tracks_pure ()
      | false => exact tracks_throw _
    · exact fun _ => Beside.tracks_change _
  | filter predicate child ih =>
    exact tracks_bind again fun _ => Stage.tracks_onInner _ (fun _ _ => rfl) ih
  | insert transaction table child => exact tracks_bind again fun _ => ungiven
  | delete transaction child => exact tracks_bind again fun _ => ungiven
  | aggregate aggregation child =>
    apply tracks_bind again
    intro _
    apply Stage.tracks_onInner Prod.snd fun _ _ => rfl
    exact Beside.tracks_onFirst _ (fun _ _ _ => rfl) tracks_replay

end Plan

variable [EvictionPolicy μ]

structure Store.RowClosed (relation : Store μ → Store μ → Prop) : Prop
    extends Store.FetchClosed relation where
  insert : ∀ store transaction table row,
    Action.Ends (Store.insert transaction table row) store (fun _ after => relation store after)
      fun _ after => relation store after
  delete : ∀ store transaction row,
    Action.Ends (Store.delete transaction row) store (fun _ after => relation store after)
      fun _ after => relation store after

theorem Store.isPreorder_of_fetchClosed (closed : FetchClosed relation) :
    IsPreorder (Store μ) relation where
  refl := closed.refl
  trans := fun _ _ _ => closed.trans

namespace Plan

/-- Whether the plan stores or deletes rows, at the top or further down. -/
def Changes : Plan → Prop
  | values _ _ | scan _ => False
  | filter _ child | aggregate _ child => child.Changes
  | insert _ _ _ | delete _ _ => True

/-- Only a scan looks at pages when a row is asked for, and there is none at work in a plan that stores
or deletes. -/
theorem tracks_produce_of_scans [IsPreorder (Store μ) relation] (steps : Nat) (plan : Plan)
    (scans : ¬ plan.Changes → ∀ source, Tracks relation Prod.snd (produceScanned (μ := μ) source)) :
    Tracks relation Prod.snd (plan.produce (μ := μ) steps) := by
  induction plan with
  | values schema rows => exact tracks_produceListed rows
  | scan source => exact scans id source
  | filter predicate child ih =>
    exact Stage.tracks_firstPassing (Stage.tracks_next?_of_produces _ (fun _ _ => rfl) (ih scans)) _
      steps
  | insert transaction table child =>
    exact Beside.tracks_onFirst _ (fun _ _ _ => rfl) tracks_produceCount
  | delete transaction child =>
    exact Beside.tracks_onFirst _ (fun _ _ _ => rfl) tracks_produceCount
  | aggregate aggregation child =>
    exact Beside.tracks_onFirst _ (fun _ _ _ => rfl) tracks_produceTotals

theorem tracks_produce (closed : Store.FetchClosed relation) (steps : Nat) (plan : Plan) :
    Tracks relation Prod.snd (plan.produce (μ := μ) steps) := by
  have := Store.isPreorder_of_fetchClosed closed
  exact tracks_produce_of_scans steps plan
    fun _ source => Beside.tracks_of_spans (spans_produceScanned closed source)

theorem tracks_forEach (closed : Store.FetchClosed relation) (steps turns : Nat) (child : Plan)
    {γ : Type} {apply : Row → Action (γ × Store μ) Unit}
    (applies : ∀ row, Tracks relation Prod.snd (apply row)) :
    Tracks relation Prod.snd (Stage.forEach (child.produce steps) apply turns) := by
  have := Store.isPreorder_of_fetchClosed closed
  apply Stage.tracks_forEach
  · apply Beside.tracks_onSecond Prod.snd fun _ _ _ => rfl
    exact Stage.tracks_next?_of_produces _ (fun _ _ => rfl) (tracks_produce closed steps child)
  · exact fun row => Beside.tracks_onFirst _ (fun _ _ _ => rfl) (applies row)

theorem tracks_start (closed : Store.RowClosed relation) (steps : Nat) (plan : Plan) :
    Tracks relation Prod.snd (plan.start (μ := μ) steps) := by
  have := Store.isPreorder_of_fetchClosed closed.toFetchClosed
  have opens {α : Type} : Tracks relation Prod.snd (Stage.start (μ := μ) (α := α)) :=
    Beside.tracks_change _
  have prepares {α : Type} {action : Action (α × Store μ) Unit}
      (tracks : Tracks relation Prod.snd action) :
      Tracks relation Prod.snd (Stage.onInner action >>= fun _ => Stage.start) :=
    tracks_bind (Stage.tracks_onInner _ (fun _ _ => rfl) tracks) fun _ => opens
  have fetches := closed.toFetchClosed
  -- A node that goes through its child starts it and sets its own part back first.
  have startsBelow {γ : Type} {child : Plan} {fresh : γ → γ}
      {later : Action ((γ × Stage child.Inner) × Store μ) Unit}
      (starts : Tracks relation Prod.snd (child.start (μ := μ) steps))
      (tracks : Tracks relation Prod.snd later) :
      Tracks relation Prod.snd (Stage.onInner (do
        Beside.onSecond (child.start steps)
        Beside.onFirst (Beside.modifyOwn fresh)
        later) >>= fun _ => Stage.start) := by
    apply prepares
    apply tracks_bind (Beside.tracks_onSecond _ (fun _ _ _ => rfl) starts)
    intro _
    apply tracks_bind (Beside.tracks_onFirst Prod.snd (fun _ _ _ => rfl)
      (Beside.tracks_change fresh))
    exact fun _ => tracks
  induction plan with
  | values schema rows => exact prepares (Beside.tracks_change _)
  | scan source => exact prepares (Beside.tracks_change _)
  | filter predicate child ih => exact prepares ih
  | insert transaction table child ih =>
    apply startsBelow ih
    apply tracks_forEach fetches steps steps child
    exact tracks_counting fun row store => closed.insert store transaction table row
  | delete transaction child ih =>
    apply startsBelow ih
    apply tracks_forEach fetches steps steps child
    exact tracks_counting fun row store => closed.delete store transaction row
  | aggregate aggregation child ih =>
    apply startsBelow ih
    apply tracks_bind (tracks_forEach fetches steps steps child tracks_adding)
    exact fun _ => Beside.tracks_onFirst _ (fun _ _ _ => rfl) (tracks_finishTotals _)

end Plan

namespace Operator

variable (steps : Nat)

/-- Whatever is asked of an operator but to start, it only fetches pages. -/
theorem tracks_perform (closed : Store.FetchClosed relation) {call : Call} (calm : call ≠ .start) :
    Tracks relation Prod.snd (perform (μ := μ) steps call) := by
  have := Store.isPreorder_of_fetchClosed closed
  have produces := Plan.tracks_produce closed steps
  cases call with
  | start => contradiction
  | close => exact tracks_bind (Beside.tracks_change close) fun _ => tracks_pure _
  | rewind => exact tracks_bind (tracks_onState Plan.tracks_rewind) fun _ => tracks_pure _
  | hasNext =>
    apply tracks_map
    exact tracks_onState fun plan => Stage.tracks_hasNext _ (fun _ _ => rfl) (produces plan)
  | next =>
    apply tracks_map
    exact tracks_onState fun plan => Stage.tracks_next _ (fun _ _ => rfl) (produces plan)

theorem tracks_perform_all (closed : Store.RowClosed relation) (call : Call) :
    Tracks relation Prod.snd (perform (μ := μ) steps call) := by
  have := Store.isPreorder_of_fetchClosed closed.toFetchClosed
  by_cases starts : call = .start
  · subst starts
    exact tracks_bind (tracks_onState (Plan.tracks_start closed steps)) fun _ => tracks_pure _
  · exact tracks_perform steps closed.toFetchClosed starts

end Operator

/-- The cached pages are sound, and they agree with their files as long as these have few pages. -/
def Store.Consistent (store : Store μ) : Prop := store.Tidy ∧ (store.Few → store.Aligned)

omit [EvictionPolicy μ] in
theorem Store.consistent_of_unused {store : Store μ} (filed : store.catalog.Filed)
    (unused : store.pool.frames = []) : store.Consistent :=
  ⟨tidy_of_unused unused, fun _ => aligned_of_unused filed unused⟩

/-- What motions and revisions keep is kept by fetches and by changes of rows. -/
theorem Store.rowClosed_of_closed {P : Store μ → Prop} (closed : Closed P)
    (tidy : ∀ store, P store → store.Tidy) : RowClosed fun before after => P before → P after where
  refl := fun _ holds => holds
  trans := fun left right holds => right (left holds)
  fetch := by
    intro store id
    apply Action.ends_imp (fetch_moves store id)
    · exact fun _ _ done holds => keeps_of_moved (fun _ _ => closed.motion) done.1 holds
    · exact fun _ _ moved holds => keeps_of_moved (fun _ _ => closed.motion) moved holds
  insert := by
    intro store transaction table row
    refine Action.ends_given fun holds => ?_
    apply Action.ends_imp (insert_moves (tidy store holds) transaction table row)
    · rintro frame after ⟨middle, id, slot, moved, revised⟩
      exact closed.revised revised (keeps_of_moved (fun _ _ => closed.motion) moved holds)
    · exact fun _ _ moved => keeps_of_moved (fun _ _ => closed.motion) moved holds
  delete := by
    intro store transaction row
    refine Action.ends_given fun holds => ?_
    apply Action.ends_imp (delete_moves (tidy store holds) transaction row)
    · rintro frame after ⟨middle, record, moved, -, revised⟩
      exact closed.revised revised (keeps_of_moved (fun _ _ => closed.motion) moved holds)
    · exact fun _ _ moved => keeps_of_moved (fun _ _ => closed.motion) moved holds

namespace Operator

variable (steps : Nat)

/-- What holds of a store at first and is kept by motions, revisions and losses of pages holds of it
whatever an operator is asked and whatever others ask meanwhile. -/
theorem keeps_after_calls {P : Store μ → Prop} (closed : Store.Closed P)
    (tidy : ∀ store, P store → store.Tidy) (state : Operator × Store μ) (events : List Event)
    (holds : P state.2) : P (after steps state events).2 := by
  induction events generalizing state with
  | nil => exact holds
  | cons event rest ih =>
    apply ih (happen steps state event)
    cases event with
    | call call =>
      have kept := Action.after_of_ends
        (tracks_perform_all steps (Store.rowClosed_of_closed closed tidy) call state)
      exact kept holds
    | ask operation =>
      exact Store.keeps_of_did closed (Store.did_outcome (tidy _ holds) operation) holds

theorem consistent_of_events {state : Operator × Store μ} (consistent : state.2.Consistent)
    (events : List Event) : (after steps state events).2.Consistent :=
  keeps_after_calls steps (Store.closed_and Store.closed_tidy Store.closed_aligned)
    (fun _ consistent => consistent.1) state events consistent

/-- If no file has too many pages in the end, then none had before. -/
theorem few_of_events {state : Operator × Store μ} (tidy : state.2.Tidy) {events : List Event}
    (few : (after steps state events).2.Few) : state.2.Few := by
  by_contra many
  exact (keeps_after_calls steps (Store.closed_and Store.closed_tidy Store.closed_many)
    (fun _ both => both.1) state events ⟨tidy, many⟩).2 few

/-- Nothing but a start changes a row or makes a file longer. -/
theorem still_of_call {state : Operator × Store μ} (few : state.2.Few) (aligned : state.2.Aligned)
    {call : Call} (calm : call ≠ .start) : Store.Still state.2 (respond steps state call).2.2 := by
  have kept := Action.after_of_ends (tracks_perform steps Store.fetchClosed_still calm state)
  exact (kept few aligned).1

theorem plan_respond (state : Operator × Store μ) (call : Call) :
    (respond steps state call).2.1.plan = state.1.plan := by
  have kept : Action.Ends (perform steps call) state (fun _ after => after.1.plan = state.1.plan)
      fun _ after => after.1.plan = state.1.plan := by
    have same {α : Type} (action : (plan : Plan) → Action (Stage plan.Inner × Store μ) α) :
        Action.Ends (onState action) state (fun _ after => after.1.plan = state.1.plan)
          fun _ after => after.1.plan = state.1.plan :=
      (ends_onState action state.1 state.2).mpr (ends_of_forall _ (fun _ _ => rfl) fun _ _ => rfl)
    cases call with
    | start => exact (ends_bind ..).mpr (same _)
    | close => rfl
    | rewind => exact (ends_bind ..).mpr (same _)
    | hasNext => exact (ends_map ..).mpr (same _)
    | next => exact (ends_map ..).mpr (same _)
  exact Action.after_of_ends kept

theorem plan_after (state : Operator × Store μ) (events : List Event) :
    (after steps state events).1.plan = state.1.plan := by
  induction events generalizing state with
  | nil => rfl
  | cons event rest ih =>
    apply (ih (happen steps state event)).trans
    cases event with
    | call call => exact plan_respond steps state call
    | ask operation => rfl

/-- Once it is open, a plan that stores or deletes is done with the store. -/
theorem store_of_call {state : Operator × Store μ} (changes : state.1.plan.Changes) {call : Call}
    (calm : call ≠ .start) : (respond steps state call).2.2 = state.2 := by
  obtain ⟨⟨plan, stage⟩, store⟩ := state
  have produces : Tracks Eq Prod.snd (plan.produce (μ := μ) steps) :=
    Plan.tracks_produce_of_scans steps plan fun reads => absurd changes reads
  have asks : Tracks Eq Prod.snd (Stage.hasNext (plan.produce (μ := μ) steps)) :=
    Stage.tracks_hasNext _ (fun _ _ => rfl) produces
  have takes : Tracks Eq Prod.snd (Stage.next (plan.produce (μ := μ) steps)) :=
    Stage.tracks_next _ (fun _ _ => rfl) produces
  have kept : Action.Ends (perform steps call) (⟨plan, stage⟩, store) (fun _ after => store = after.2)
      fun _ after => store = after.2 := by
    cases call with
    | start => contradiction
    | close => rfl
    | rewind =>
      unfold perform rewind
      rw [ends_bind, ends_onState]
      exact Plan.tracks_rewind plan (stage, store)
    | hasNext =>
      unfold perform hasNext
      rw [ends_map, ends_onState]
      exact asks (stage, store)
    | next =>
      unfold perform next
      rw [ends_map, ends_onState]
      exact takes (stage, store)
  exact (Action.after_of_ends kept).symm

end Operator

end PagedStore
