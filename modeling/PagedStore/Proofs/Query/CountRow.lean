import PagedStore.Proofs.Query.Effects
import PagedStore.Proofs.Query.FailedOpen
import PagedStore.Proofs.Query.ListCursor

/-!
Plans that store and delete rows. The changes are made by a start and by nothing else: no other call
changes a row or makes a file longer. A node that stores or deletes gives the number of its rows as the
one row of each pass, and this is what it tells however it is called. A node below others is called by
them alone, and whatever is asked of the node at the top is so many calls of each node below it.
-/

namespace PagedStore

open PagedStore.Action

def Operator.Event.Pulls : Operator.Event → Prop
  | call asked => asked.Asks
  | ask _ => True

namespace Plan

def below? : (plan : Plan) → plan.Inner → Option Operator
  | values _ _, _ => none
  | scan _, _ => none
  | filter _ child, inner => some ⟨child, inner⟩
  | insert _ _ child, inner => some ⟨child, inner.2⟩
  | delete _ child, inner => some ⟨child, inner.2⟩
  | aggregate _ child, inner => some ⟨child, inner.2⟩

/-- Whether a node stores or deletes rows and gives their number. -/
def Counts : Plan → Prop
  | insert _ _ _ | delete _ _ => True
  | _ => False

def countRow (count : Nat) : Row := ⟨countSchema, [.integer (Int32.ofNat count)], rfl, none⟩

end Plan

namespace Operator

def below? (operator : Operator) : Option Operator := operator.plan.below? operator.state.inner

def at? : Nat → Operator → Option Operator
  | 0, operator => some operator
  | depth + 1, operator => operator.below?.bind (at? depth)

variable {μ : Type} [EvictionPolicy μ] (steps : Nat)

/-- The second state is reached from the first without a start or a close. -/
def Reaches (before after : Operator × Store μ) : Prop :=
  ∃ events : List Event, (∀ event ∈ events, event.Pulls) ∧ Operator.after steps before events = after

instance : IsPreorder (Operator × Store μ) (Reaches steps) where
  refl := fun _ => ⟨[], fun _ absent => absurd absent List.not_mem_nil, rfl⟩
  trans := by
    rintro before middle after ⟨first, pulls, rfl⟩ ⟨second, pullsThen, rfl⟩
    refine ⟨first ++ second, ?_, after_append steps before first second⟩
    intro event member
    exact (List.mem_append.mp member).elim (pulls event) (pullsThen event)

theorem reaches_of_event (state : Operator × Store μ) (event : Event) (pulls : event.Pulls) :
    Reaches steps state (happen steps state event) :=
  ⟨[event], fun _ member => List.mem_singleton.mp member ▸ pulls, rfl⟩

def Begins (before after : Operator × Store μ) : Prop :=
  (respond steps before .start).1 = .ok .done ∧ Reaches steps (respond steps before .start).2 after

def Passes (before after : Option Operator × Store μ) : Prop :=
  ∀ child, before.1 = some child →
    ∃ now, after.1 = some now ∧ Reaches steps (child, before.2) (now, after.2)

instance : IsPreorder (Option Operator × Store μ) (Passes steps) where
  refl := fun _ child there => ⟨child, there, refl_of (Reaches steps) _⟩
  trans := by
    intro before middle after first second child there
    obtain ⟨now, isNow, reached⟩ := first child there
    obtain ⟨last, isLast, reachedThen⟩ := second now isNow
    exact ⟨last, isLast, trans_of (Reaches steps) reached reachedThen⟩

variable {steps}

theorem passes_of_reaches {child now : Operator} {store after : Store μ}
    (reached : Reaches steps (child, store) (now, after)) :
    Passes steps (some child, store) (some now, after) := by
  intro other same
  obtain rfl := Option.some.inj same
  exact ⟨now, rfl, reached⟩

end Operator

open Operator

variable {μ α : Type} [EvictionPolicy μ] {steps : Nat}

abbrev Plan.Below (child : Plan) (state : Stage child.Inner × Store μ) : Option Operator × Store μ :=
  (some ⟨child, state.1⟩, state.2)

namespace Store

/-- The action does what the request does and has another value if it succeeds. -/
def CarriesOut (operation : Operation) (action : Action (Store μ) α) (store : Store μ) : Prop :=
  Action.Ends action store
    (fun _ after => ∃ answer, store.outcome operation = (.ok answer, after))
    fun fault after => store.outcome operation = (.error fault, after)

theorem insert_carriesOut (transaction : Transaction) (table : TableId) (row : Row) (store : Store μ) :
    CarriesOut (.insert transaction table row) (insert transaction table row) store := by
  have told := ends_outcome (perform (.insert transaction table row)) store
  unfold perform at told
  rw [ends_bind] at told
  exact ends_imp told (fun _ _ same => ⟨_, same⟩) fun _ _ same => same

theorem delete_carriesOut (transaction : Transaction) (row : Row) (store : Store μ) :
    CarriesOut (.delete transaction row) (delete transaction row) store := by
  have told := ends_outcome (perform (.delete transaction row)) store
  unfold perform at told
  rw [ends_bind] at told
  exact ends_imp told (fun _ _ same => ⟨_, same⟩) fun _ _ same => same

end Store

namespace Plan

variable {child : Plan}

/-- A call that is made of the child. -/
theorem tracks_of_call {call : Call} (asks : call.Asks)
    {action : Action (Stage child.Inner × Store μ) α}
    (told : ∀ stage store, Action.Ends action (stage, store)
      (fun _ after => (respond steps (⟨child, stage⟩, store) call).2 = (⟨child, after.1⟩, after.2))
      fun _ after => (respond steps (⟨child, stage⟩, store) call).2 = (⟨child, after.1⟩, after.2)) :
    Tracks (Passes steps) child.Below action := by
  rintro ⟨stage, store⟩
  have reached := reaches_of_event steps (⟨child, stage⟩, store) (.call call) asks
  rw [happen] at reached
  apply ends_imp (told stage store)
  · intro value after same
    rw [same] at reached
    exact passes_of_reaches reached
  · intro fault after same
    rw [same] at reached
    exact passes_of_reaches reached

theorem tracks_hasNext_below (child : Plan) :
    Tracks (Passes steps) child.Below (Stage.hasNext (μ := μ) (child.produce steps)) := by
  apply tracks_of_call (Or.inr (Or.inl rfl))
  intro stage store
  exact ends_imp (hasNext_responds child stage store) (fun _ _ same => congrArg Prod.snd same)
    fun _ _ same => congrArg Prod.snd same

theorem tracks_next_below (child : Plan) :
    Tracks (Passes steps) child.Below (Stage.next (μ := μ) (child.produce steps)) := by
  apply tracks_of_call (Or.inr (Or.inr rfl))
  intro stage store
  exact ends_imp (next_responds child stage store) (fun _ _ same => congrArg Prod.snd same)
    fun _ _ same => congrArg Prod.snd same

theorem tracks_rewind_below (child : Plan) :
    Tracks (Passes steps) child.Below (child.rewind (μ := μ)) := by
  apply tracks_of_call (Or.inl rfl)
  intro stage store
  exact ends_imp (rewind_responds child stage store) (fun _ _ same => congrArg Prod.snd same)
    fun _ _ same => congrArg Prod.snd same

theorem tracks_next?_below (child : Plan) :
    Tracks (Passes steps) child.Below (Stage.next? (μ := μ) (child.produce steps)) :=
  Stage.tracks_next? (tracks_hasNext_below child) (tracks_next_below child)

/-- What is done beside the child and leaves the store as it was. -/
theorem tracks_beside {β γ : Type} {action : Action (β × Store μ) γ}
    (tracks : Tracks Eq Prod.snd action) :
    Tracks (Passes steps) (fun state : (β × Stage child.Inner) × Store μ =>
      child.Below (state.1.2, state.2)) (Beside.onFirst action) := by
  rintro ⟨⟨own, stage⟩, store⟩
  rw [Beside.ends_onFirst]
  apply ends_imp (tracks (own, store))
  · rintro value after rfl
    exact refl_of (Passes steps) _
  · rintro fault after rfl
    exact refl_of (Passes steps) _

/-- What is done at the bottom of a plan. -/
theorem tracks_alone {σ : Type} {view : σ → Option Operator × Store μ}
    (alone : ∀ state, (view state).1 = none) (action : Action σ α) :
    Tracks (Passes steps) view action := by
  intro state
  have passes : ∀ after, Passes steps (view state) (view after) := by
    intro after child there
    rw [alone] at there
    contradiction
  exact ends_of_forall _ (fun _ => passes) fun _ => passes

/-- To produce a row, a node asks its child for rows. -/
theorem tracks_produce_below (plan : Plan) :
    Tracks (Passes steps) (fun state => (plan.below? state.1, state.2))
      (plan.produce (μ := μ) steps) := by
  cases plan with
  | values schema rows => exact tracks_alone (fun _ => rfl) _
  | scan source => exact tracks_alone (fun _ => rfl) _
  | filter predicate child => exact Stage.tracks_firstPassing (tracks_next?_below child) _ steps
  | insert transaction table child => exact tracks_beside tracks_produceCount
  | delete transaction child => exact tracks_beside tracks_produceCount
  | aggregate aggregation child => exact tracks_beside tracks_produceTotals

/-- A filter hands a rewind on to its child; the other nodes do not. -/
theorem tracks_rewind_through (plan : Plan) :
    Tracks (Passes steps) (fun state => (plan.below? state.1.inner, state.2))
      (plan.rewind (μ := μ)) := by
  have again {β : Type} {view : β → Option Operator} : Tracks (Passes steps)
      (fun state : Stage β × Store μ => (view state.1.inner, state.2)) Stage.rewind :=
    Stage.tracks_rewind (fun state => (view state.1, state.2)) fun _ _ => rfl
  have ungiven {child : Plan} : Tracks (Passes steps)
      (fun state : Stage (RowCount × Stage child.Inner) × Store μ =>
        (some ⟨child, state.1.inner.2⟩, state.2))
      (Stage.onInner (Beside.onFirst
        (Beside.modifyOwn fun state => { state with given := false }))) :=
    Stage.tracks_onInner _ (fun _ _ => rfl) (tracks_beside (Beside.tracks_change _))
  cases plan with
  | values schema rows => exact tracks_alone (fun _ => rfl) _
  | scan source => exact tracks_alone (fun _ => rfl) _
  | filter predicate child =>
    exact tracks_bind again fun _ => Stage.tracks_onInner _ (fun _ _ => rfl) (tracks_rewind_below child)
  | insert transaction table child => exact tracks_bind again fun _ => ungiven
  | delete transaction child => exact tracks_bind again fun _ => ungiven
  | aggregate aggregation child =>
    exact tracks_bind again fun _ =>
      Stage.tracks_onInner _ (fun _ _ => rfl) (tracks_beside tracks_replay)

/-- To store or delete a row of the child is a request that others than the child make. -/
theorem tracks_counting_below {child : Plan} {apply : Row → Action (Store μ) Frame}
    (request : Row → Operation)
    (carries : ∀ row store, Store.CarriesOut (request row) (apply row) store) (row : Row) :
    Tracks (Passes steps) (fun state : (RowCount × Stage child.Inner) × Store μ =>
      child.Below (state.1.2, state.2)) (Beside.onFirst (counting apply row)) := by
  rintro ⟨⟨own, stage⟩, store⟩
  have passes : ∀ answer after, store.outcome (request row) = (answer, after) →
      Passes steps (child.Below (stage, store)) (child.Below (stage, after)) := by
    intro answer after same
    have reached := reaches_of_event steps (⟨child, stage⟩, store) (.ask (request row)) trivial
    rw [happen, same] at reached
    exact passes_of_reaches reached
  rw [Beside.ends_onFirst, counting, ends_bind, Beside.ends_onStore]
  apply ends_imp (carries row store)
  · rintro frame after ⟨answer, same⟩
    exact passes _ after same
  · exact fun fault after same => passes _ after same

abbrev Begun (steps : Nat) (before after : Option Operator × Store μ) : Prop :=
  ∀ child, before.1 = some child → ∃ now, after.1 = some now ∧
    Begins steps (child, before.2) (now, after.2)

theorem begun_of_passes {before middle after : Option Operator × Store μ}
    (begun : Begun steps before middle) (passes : Passes steps middle after) :
    Begun steps before after := by
  intro child there
  obtain ⟨now, isNow, started, reached⟩ := begun child there
  obtain ⟨last, isLast, reachedThen⟩ := passes now isNow
  exact ⟨last, isLast, started, trans_of (Reaches steps) reached reachedThen⟩

theorem start_below (child : Plan) (stage : Stage child.Inner) (store : Store μ) :
    Action.Ends (child.start steps) (stage, store)
      (fun _ after => Begun steps (child.Below (stage, store)) (child.Below after))
      fun _ _ => True := by
  apply ends_imp (start_responds child stage store)
  · intro _ after same other isChild
    obtain rfl := Option.some.inj isChild
    refine ⟨_, rfl, congrArg Prod.fst same, ?_⟩
    rw [congrArg Prod.snd same]
    exact refl_of (Reaches steps) _
  · exact fun _ _ _ => trivial

/-- A node that goes through all rows of its child starts it first. -/
theorem start_through_below (child : Plan) {β : Type} {fresh : β → β}
    {later : Action ((β × Stage child.Inner) × Store μ) Unit}
    (tracks : Tracks (Passes steps) (fun state : (β × Stage child.Inner) × Store μ =>
      child.Below (state.1.2, state.2)) later)
    (stage : Stage (β × Stage child.Inner)) (store : Store μ) :
    Action.Ends (Stage.onInner (do
        Beside.onSecond (child.start steps)
        Beside.onFirst (Beside.modifyOwn fresh)
        later) >>= fun _ => Stage.start) (stage, store)
      (fun _ after => Begun steps (child.Below (stage.inner.2, store))
        (child.Below (after.1.inner.2, after.2))) fun _ _ => True := by
  have rest := tracks_bind (tracks_beside (Beside.tracks_change fresh)) fun _ => tracks
  rw [ends_bind, Stage.onInner, ends_within, ends_bind]
  obtain ⟨opened, lookahead, own, inner⟩ := stage
  rw [Beside.ends_onSecond]
  apply ends_imp (start_below child inner store)
  · rintro value after begun
    apply ends_imp (rest ((own, after.1), after.2))
    · intro _ last passes
      exact begun_of_passes begun passes
    · exact fun _ _ _ => trivial
  · exact fun _ _ _ => trivial

theorem start_begins_below (plan : Plan) (stage : Stage plan.Inner) (store : Store μ) :
    Action.Ends (plan.start steps) (stage, store)
      (fun _ after => Begun steps (plan.below? stage.inner, store)
        (plan.below? after.1.inner, after.2)) fun _ _ => True := by
  have goesThrough {γ : Type} (child : Plan) {apply : Row → Action (γ × Store μ) Unit}
      (applies : ∀ row, Tracks (Passes steps) (fun state : (γ × Stage child.Inner) × Store μ =>
        child.Below (state.1.2, state.2)) (Beside.onFirst (apply row))) :
      Tracks (Passes steps) (fun state => child.Below (state.1.2, state.2))
        (Stage.forEach (child.produce steps) apply steps) :=
    Stage.tracks_forEach (Beside.tracks_onSecond _ (fun _ _ _ => rfl) (tracks_next?_below child))
      applies steps
  cases plan with
  | values schema rows => exact ends_of_forall _ (fun _ _ _ absent => nomatch absent) fun _ _ => trivial
  | scan source => exact ends_of_forall _ (fun _ _ _ absent => nomatch absent) fun _ _ => trivial
  | filter predicate child =>
    unfold start
    rw [ends_bind]
    exact (ends_within ..).mpr (start_below child stage.inner store)
  | insert transaction table child =>
    apply start_through_below child
    exact goesThrough child
      (tracks_counting_below _ fun row => Store.insert_carriesOut transaction table row)
  | delete transaction child =>
    apply start_through_below child
    exact goesThrough child
      (tracks_counting_below _ fun row => Store.delete_carriesOut transaction row)
  | aggregate aggregation child =>
    apply start_through_below child
    apply tracks_bind (goesThrough child fun row => tracks_beside (tracks_adding row))
    exact fun _ => tracks_beside (tracks_finishTotals _)

end Plan

namespace Operator

/-- Whatever is asked of a node is so many calls of the node below it. -/
theorem passes_of_call (operator : Operator) (store : Store μ) {call : Call} (asks : call.Asks) :
    Passes steps (operator.below?, store)
      ((respond steps (operator, store) call).2.1.below?,
        (respond steps (operator, store) call).2.2) := by
  have tracks : Tracks (Passes steps) (fun state : Operator × Store μ => (state.1.below?, state.2))
      (perform steps call) := by
    obtain rfl | rfl | rfl := asks
    · exact tracks_bind (tracks_onState Plan.tracks_rewind_through) fun _ => tracks_pure _
    · apply tracks_map
      exact tracks_onState fun plan =>
        Stage.tracks_hasNext _ (fun _ _ => rfl) (Plan.tracks_produce_below plan)
    · apply tracks_map
      exact tracks_onState fun plan =>
        Stage.tracks_next _ (fun _ _ => rfl) (Plan.tracks_produce_below plan)
  exact Action.after_of_ends (tracks (operator, store))

theorem passes_of_reaches_above {before after : Operator × Store μ}
    (reached : Reaches steps before after) :
    Passes steps (before.1.below?, before.2) (after.1.below?, after.2) := by
  obtain ⟨events, pulls, rfl⟩ := reached
  induction events generalizing before with
  | nil => exact refl_of (Passes steps) _
  | cons event rest ih =>
    have first : Passes steps (before.1.below?, before.2)
        ((happen steps before event).1.below?, (happen steps before event).2) := by
      cases event with
      | call call => exact passes_of_call before.1 before.2 (pulls _ List.mem_cons_self)
      | ask operation =>
        intro child there
        exact ⟨child, there, reaches_of_event steps (child, before.2) (.ask operation) trivial⟩
    apply trans_of (Passes steps) first
    exact ih fun event member => pulls event (List.mem_cons_of_mem _ member)

theorem begun_of_begins {before after : Operator × Store μ} (begins : Begins steps before after) :
    Plan.Begun steps (before.1.below?, before.2) (after.1.below?, after.2) := by
  obtain ⟨started, reached⟩ := begins
  have starts : Action.Ends (perform steps .start) before
      (fun _ now => Plan.Begun steps (before.1.below?, before.2) (now.1.below?, now.2))
      fun _ _ => True := by
    unfold perform Operator.start
    rw [ends_bind, ends_onState]
    exact Plan.start_begins_below before.1.plan before.1.state before.2
  exact Plan.begun_of_passes (Action.done_of_outcome starts started)
    (passes_of_reaches_above reached)

/-- A start of the node at the top starts every node, and whatever comes then is so many calls of each
node. -/
theorem begins_at {before after : Operator × Store μ} (begins : Begins steps before after)
    (depth : Nat) {node : Operator} (there : before.1.at? depth = some node) :
    ∃ now, after.1.at? depth = some now ∧ Begins steps (node, before.2) (now, after.2) := by
  induction depth generalizing before after with
  | zero =>
    obtain rfl := Option.some.inj there
    exact ⟨after.1, rfl, begins⟩
  | succ depth ih =>
    obtain ⟨child, isChild, below⟩ := Option.bind_eq_some_iff.mp there
    obtain ⟨now, isNow, begun⟩ := begun_of_begins begins child isChild
    obtain ⟨last, isLast, reached⟩ := ih begun below
    exact ⟨last, Option.bind_eq_some_iff.mpr ⟨now, isNow, isLast⟩, reached⟩

end Operator

/-- Where an open node that counts stands: in front of its row, with the row produced ahead, or behind
it. -/
inductive Tally {β : Type} (count : Nat) : Stage (RowCount × β) → Nat → Prop where
  | fresh (inner : β) : Tally count ⟨true, none, (⟨count, false⟩, inner)⟩ 0
  | ahead (inner : β) : Tally count ⟨true, some (Plan.countRow count), (⟨count, true⟩, inner)⟩ 0
  | spent (inner : β) : Tally count ⟨true, none, (⟨count, true⟩, inner)⟩ 1

def Plan.Answers {σ γ : Type} (count given : Nat) (call : Call) (reply : γ → Reply)
    (stands : Nat → σ → Prop) (action : Action σ γ) (state : σ) : Prop :=
  Action.Ends action state
    (fun value after => ∃ now,
      ListCursor.respond [countRow count] (some given) call = (.ok (reply value), some now) ∧
        stands now after)
    fun fault after => ∃ now,
      ListCursor.respond [countRow count] (some given) call = (.error fault, some now) ∧
        stands now after

namespace Tally

omit [EvictionPolicy μ]

variable {β : Type} {count given : Nat} {stage : Stage (RowCount × β)}

theorem hasNext_answers (tally : Tally count stage given) (store : Store μ) :
    Plan.Answers count given .hasNext .more (fun now after => Tally count after.1 now)
      (Stage.hasNext (Beside.onFirst Plan.produceCount)) (stage, store) := by
  cases tally with
  | fresh inner => exact ⟨0, rfl, .ahead inner⟩
  | ahead inner => exact ⟨0, rfl, .ahead inner⟩
  | spent inner => exact ⟨1, rfl, .spent inner⟩

theorem next_answers (tally : Tally count stage given) (store : Store μ) :
    Plan.Answers count given .next .row (fun now after => Tally count after.1 now)
      (Stage.next (Beside.onFirst Plan.produceCount)) (stage, store) := by
  cases tally with
  | fresh inner => exact ⟨1, rfl, .spent inner⟩
  | ahead inner => exact ⟨1, rfl, .spent inner⟩
  | spent inner => exact ⟨1, rfl, .spent inner⟩

theorem rewind_answers (tally : Tally count stage given) (store : Store μ) :
    Plan.Answers count given .rewind (fun _ => .done) (fun now after => Tally count after.1 now) (do
      Stage.rewind
      Stage.onInner (Beside.onFirst (Beside.modifyOwn fun state => { state with given := false })))
      (stage, store) := by
  cases tally with
  | fresh inner => exact ⟨0, rfl, .fresh inner⟩
  | ahead inner => exact ⟨0, rfl, .fresh inner⟩
  | spent inner => exact ⟨0, rfl, .fresh inner⟩

end Tally

namespace Plan

variable {count given : Nat}

/-- The node stores or deletes, and it is open and stands so. -/
def Tallies (count given : Nat) : (plan : Plan) → Stage plan.Inner → Prop
  | insert _ _ _, stage => Tally count stage given
  | delete _ _, stage => Tally count stage given
  | _, _ => False

theorem hasNext_tallies {plan : Plan} {stage : Stage plan.Inner}
    (tallies : plan.Tallies count given stage) (store : Store μ) :
    Answers count given .hasNext .more (fun now after => plan.Tallies count now after.1)
      (Stage.hasNext (plan.produce steps)) (stage, store) := by
  cases plan with
  | insert transaction table child => exact Tally.hasNext_answers tallies store
  | delete transaction child => exact Tally.hasNext_answers tallies store
  | _ => exact tallies.elim

theorem next_tallies {plan : Plan} {stage : Stage plan.Inner}
    (tallies : plan.Tallies count given stage) (store : Store μ) :
    Answers count given .next .row (fun now after => plan.Tallies count now after.1)
      (Stage.next (plan.produce steps)) (stage, store) := by
  cases plan with
  | insert transaction table child => exact Tally.next_answers tallies store
  | delete transaction child => exact Tally.next_answers tallies store
  | _ => exact tallies.elim

omit [EvictionPolicy μ] in
theorem rewind_tallies {plan : Plan} {stage : Stage plan.Inner}
    (tallies : plan.Tallies count given stage) (store : Store μ) :
    Answers count given .rewind (fun _ => .done) (fun now after => plan.Tallies count now after.1)
      plan.rewind (stage, store) := by
  cases plan with
  | insert transaction table child => exact Tally.rewind_answers tallies store
  | delete transaction child => exact Tally.rewind_answers tallies store
  | _ => exact tallies.elim

/-- Nothing that is done for the rows of the child gives the count out. -/
theorem forEach_keeps_given (child : Plan) (apply : Row → Action (Store μ) Frame) :
    Tracks Eq (fun state : (RowCount × Stage child.Inner) × Store μ => state.1.1.given)
      (Stage.forEach (child.produce steps) (counting apply) steps) := by
  apply Stage.tracks_forEach
  · rintro ⟨⟨own, stage⟩, store⟩
    rw [Beside.ends_onSecond]
    exact ends_of_forall _ (fun _ _ => rfl) fun _ _ => rfl
  · rintro row ⟨⟨own, stage⟩, store⟩
    rw [Beside.ends_onFirst, counting, ends_bind, Beside.ends_onStore]
    exact ends_of_forall _ (fun _ _ => rfl) fun _ _ => rfl

theorem start_counting_tallies (child : Plan) (apply : Row → Action (Store μ) Frame)
    (stage : Stage (RowCount × Stage child.Inner)) (store : Store μ) :
    Action.Ends (Stage.onInner (do
        Beside.onSecond (child.start steps)
        Beside.onFirst (Beside.modifyOwn fun _ => ⟨0, false⟩)
        Stage.forEach (child.produce steps) (counting apply) steps) >>= fun _ => Stage.start)
      (stage, store) (fun _ after => ∃ count, Tally count after.1 0) fun _ _ => True := by
  obtain ⟨opened, lookahead, own, inner⟩ := stage
  rw [ends_bind, Stage.onInner, ends_within, ends_bind, Beside.ends_onSecond]
  refine ends_of_forall _ (fun _ after => ?_) fun _ _ => trivial
  apply ends_imp (forEach_keeps_given child apply ((⟨0, false⟩, after.1), after.2))
  · rintro _ ⟨⟨⟨count, given⟩, childStage⟩, last⟩ same
    obtain rfl : false = given := same
    exact ⟨count, .fresh childStage⟩
  · exact fun _ _ _ => trivial

theorem start_tallies {plan : Plan} (counts : plan.Counts) (stage : Stage plan.Inner)
    (store : Store μ) :
    Action.Ends (plan.start steps) (stage, store)
      (fun _ after => ∃ count, plan.Tallies count 0 after.1) fun _ _ => True := by
  cases plan with
  | insert transaction table child => exact start_counting_tallies child _ stage store
  | delete transaction child => exact start_counting_tallies child _ stage store
  | _ => exact counts.elim

end Plan

namespace Operator

variable {count given : Nat}

theorem respond_of_tallies (steps : Nat) {state : Operator × Store μ}
    (tallies : state.1.plan.Tallies count given state.1.state) {call : Call} (asks : call.Asks) :
    ∃ now, ListCursor.respond [Plan.countRow count] (some given) call =
        ((respond steps state call).1, some now) ∧
      (respond steps state call).2.1.plan.Tallies count now (respond steps state call).2.1.state := by
  obtain ⟨operator, store⟩ := state
  have answers : Plan.Answers count given call (fun reply => reply)
      (fun now after => after.1.plan.Tallies count now after.1.state)
      (perform steps call) (operator, store) := by
    unfold Plan.Answers
    obtain rfl | rfl | rfl := asks
    · unfold perform Operator.rewind
      rw [ends_bind, ends_onState]
      exact Plan.rewind_tallies tallies store
    · unfold perform hasNext
      rw [ends_map, ends_onState]
      exact Plan.hasNext_tallies tallies store
    · unfold perform next
      rw [ends_map, ends_onState]
      exact Plan.next_tallies tallies store
  rcases Action.outcome_of_ends answers with
    ⟨reply, replied, now, same, stands⟩ | ⟨fault, failed, now, same, stands⟩
  · exact ⟨now, same.trans (congrArg (·, some now) replied.symm), stands⟩
  · exact ⟨now, same.trans (congrArg (·, some now) failed.symm), stands⟩

/-- A node that stores or deletes tells its count once in every pass. -/
theorem history_of_tallies {state : Operator × Store μ}
    (tallies : state.1.plan.Tallies count given state.1.state) {events : List Event}
    (pulls : ∀ event ∈ events, event.Pulls) :
    history steps state events = ListCursor.history [Plan.countRow count] (some given) events := by
  induction events generalizing state given with
  | nil => rfl
  | cons event rest ih =>
    have later : ∀ event ∈ rest, event.Pulls :=
      fun event member => pulls event (List.mem_cons_of_mem _ member)
    cases event with
    | call call =>
      obtain ⟨now, same, stands⟩ := respond_of_tallies steps tallies
        (pulls _ List.mem_cons_self)
      have told := ih stands later
      rw [history, ListCursor.history, same]
      exact congrArg _ told
    | ask operation =>
      change history steps (happen steps state (.ask operation)) rest = _
      exact ih tallies later

/-- Whatever is asked of the operator but to open or close it, it tells what a cursor over the one row
tells. -/
def TellsOnce (steps : Nat) (begun : Operator × Store μ) (row : Row) : Prop :=
  ∀ calls : List Event, (∀ event ∈ calls, event.Pulls) →
    history steps begun calls = ListCursor.history [row] (some 0) calls

theorem exists_count_of_started {node : Operator} (counts : node.plan.Counts) {store : Store μ}
    (started : (respond steps (node, store) .start).1 = .ok .done) :
    ∃ count, TellsOnce steps (respond steps (node, store) .start).2 (Plan.countRow count) := by
  have starts : Action.Ends (perform steps .start) (node, store)
      (fun _ after => ∃ count, after.1.plan.Tallies count 0 after.1.state) fun _ _ => True := by
    unfold perform Operator.start
    rw [ends_bind, ends_onState]
    exact Plan.start_tallies counts node.state store
  obtain ⟨count, tallies⟩ := Action.done_of_outcome starts started
  exact ⟨count, fun calls pulls => history_of_tallies tallies pulls⟩

/-- Nothing but a start changes a row of any table or makes a file longer, whatever has been asked before,
if the plan stores or deletes on some level. A plan that only reads moves pages at other calls as well,
and it changes nothing either as long as no file has come to 2^32 pages. After a start that has succeeded,
every node that stores or deletes, wherever it stands in the plan, has been started and tells one row in
every pass, and whatever is then asked of the node at the top is so many calls of it. -/
theorem only_start_changes_rows {origin : Store μ} (filed : origin.catalog.Filed)
    (unused : origin.pool.frames = []) {plan : Plan} {before : Operator × Store μ}
    (reached : ∃ events, after steps (ofPlan plan, origin) events = before) :
    ((plan.Changes ∨ before.2.Few) → ∀ call, call ≠ .start →
      Store.Still before.2 (respond steps before call).2.2 ∧
      ∀ file : HeapFile, file.pageCount (respond steps before call).2.2.disk =
        file.pageCount before.2.disk) ∧
    ((respond steps before .start).1 = .ok .done →
      ∀ depth node, before.1.at? depth = some node → node.plan.Counts →
        ∃ count begun, respond steps (node, before.2) .start = (.ok .done, begun) ∧
          TellsOnce steps begun (Plan.countRow count) ∧
          ∀ later : List Event, (∀ event ∈ later, event.Pulls) →
            ∃ now, (after steps (respond steps before .start).2 later).1.at? depth = some now ∧
              Reaches steps begun (now, (after steps (respond steps before .start).2 later).2)) := by
  obtain ⟨events, rfl⟩ := reached
  constructor
  · intro calms call calm
    have still : Store.Still (after steps (ofPlan plan, origin) events).2
        (respond steps (after steps (ofPlan plan, origin) events) call).2.2 := by
      rcases calms with changes | few
      · have samePlan := plan_after steps (ofPlan plan, origin) events
        have same := store_of_call steps (congrArg Plan.Changes samePlan ▸ changes) calm
        exact same.symm ▸ Store.still_refl _
      · have consistent := consistent_of_events steps
          (show (ofPlan plan, origin).2.Consistent from Store.consistent_of_unused filed unused) events
        exact still_of_call steps few (consistent.2 few) calm
    exact ⟨still, Store.pageCount_of_level still.level⟩
  · intro started depth node there counts
    have begins : ∀ later : List Event, (∀ event ∈ later, event.Pulls) → _ :=
      fun later pulls => begins_at ⟨started, later, pulls, rfl⟩ depth there
    obtain ⟨-, -, nodeStarted, -⟩ := begins [] fun _ absent => absurd absent List.not_mem_nil
    obtain ⟨count, once⟩ := exists_count_of_started counts nodeStarted
    refine ⟨count, _, Prod.ext nodeStarted rfl, once, ?_⟩
    intro later pulls
    obtain ⟨now, isNow, -, reaches⟩ := begins later pulls
    exact ⟨now, isNow, reaches⟩

def emptying : Plan := .delete ⟨2⟩ (.scan ⟨Store.oneRowFile, "a", none⟩)

/-- Stores how many rows have been deleted in their table, and passes it on how many were stored. -/
def recount : Plan := .filter ⟨0, .greater, .integer 0⟩ (.insert ⟨1⟩ (.file 0) emptying)

def fetchedStore : Store Eviction.Oblivious :=
  (Store.oneRowStore.outcome (.fetch ⟨.file 0, 0⟩)).2

theorem only_start_changes_rows_of_recount :
    (Store.oneRowStore.catalog.Filed ∧ Store.oneRowStore.pool.frames = [] ∧
      after 4 (ofPlan recount, Store.oneRowStore) [.ask (.fetch ⟨.file 0, 0⟩)] =
        (ofPlan recount, fetchedStore) ∧ recount.Changes ∧
      (respond 4 (ofPlan recount, fetchedStore) .start).1 = .ok .done) ∧
    (∀ call, call ≠ .start →
      Store.Still fetchedStore (respond 4 (ofPlan recount, fetchedStore) call).2.2) ∧
    ∃ count begun, respond 4 (ofPlan emptying, fetchedStore) .start = (.ok .done, begun) ∧
      TellsOnce 4 begun (Plan.countRow count) ∧
      ∃ now, (respond 4 (ofPlan recount, fetchedStore) .start).2.1.at? 2 = some now ∧
        Reaches 4 begun (now, (respond 4 (ofPlan recount, fetchedStore) .start).2.2) := by
  have started : (respond 4 (ofPlan recount, fetchedStore) .start).1 = .ok .done := by
    decide +kernel
  have filed : Store.oneRowStore.catalog.Filed :=
    Catalog.filed_add Catalog.filed_empty Store.oneRowFile "a"
  have reached : ∃ events, after 4 (ofPlan recount, Store.oneRowStore) events =
      (ofPlan recount, fetchedStore) := ⟨[.ask (.fetch ⟨.file 0, 0⟩)], rfl⟩
  have changes : recount.Changes := trivial
  obtain ⟨still, counted⟩ := only_start_changes_rows filed rfl reached
  obtain ⟨count, begun, nodeStarted, once, reaches⟩ := counted started 2 (ofPlan emptying) rfl trivial
  exact ⟨⟨filed, rfl, rfl, changes, started⟩, fun call calm => (still (Or.inl changes) call calm).1,
    count, begun, nodeStarted, once, reaches [] fun _ absent => absurd absent List.not_mem_nil⟩

end Operator

end PagedStore
