import PagedStore.Proofs.Query.Calls

/-!
Following what is seen of a state. An action tracks a relation if, however it ends, what is seen of the
state after it stands in the relation to what was seen of the state before it. For a relation that is
reflexive and transitive there is again one rule for each way of building an action, and one for each
loop over the rows of an operator.
-/

namespace PagedStore

namespace Action

variable {σ ρ τ α β : Type}

def Tracks (relation : τ → τ → Prop) (view : σ → τ) (action : Action σ α) : Prop :=
  ∀ state, Ends action state (fun _ after => relation (view state) (view after))
    fun _ after => relation (view state) (view after)

variable {relation : τ → τ → Prop} {view : σ → τ}

/-- What is done to one part of a state is seen there and nowhere else. -/
theorem tracks_within {part : σ → ρ} {replace : ρ → σ → σ} {inner : ρ → τ}
    (sees : ∀ state, view state = inner (part state))
    (seesAfter : ∀ changed state, view (replace changed state) = inner changed)
    {action : Action ρ α} (tracks : Tracks relation inner action) :
    Tracks relation view (within part replace action) := by
  intro state
  rw [ends_within, sees state]
  apply ends_imp (tracks (part state))
  · intro value changed related
    rw [seesAfter]
    exact related
  · intro fault changed related
    rw [seesAfter]
    exact related

variable [IsPreorder τ relation]

/-- An action that leaves everything that is seen as it was. -/
theorem tracks_of_same {action : Action σ α}
    (same : ∀ state, Ends action state (fun _ after => view after = view state)
      fun _ after => view after = view state) : Tracks relation view action := by
  intro state
  apply ends_imp (same state)
  · exact fun _ _ unchanged => unchanged ▸ refl_of relation _
  · exact fun _ _ unchanged => unchanged ▸ refl_of relation _

theorem tracks_pure (value : α) : Tracks relation view (pure value) :=
  tracks_of_same fun _ => rfl

theorem tracks_throw (fault : Fault) : Tracks relation view (throw fault : Action σ α) :=
  tracks_of_same fun _ => rfl

theorem tracks_ofFault (outcome : Except Fault α) : Tracks relation view (ofFault outcome) := by
  cases outcome with
  | ok value => exact tracks_pure value
  | error fault => exact tracks_throw fault

theorem tracks_ofExcept (outcome : Except Error α) : Tracks relation view (ofExcept outcome) := by
  cases outcome with
  | ok value => exact tracks_pure value
  | error cause => exact tracks_throw _

theorem tracks_bind {action : Action σ α} {next : α → Action σ β}
    (tracks : Tracks relation view action) (later : ∀ value, Tracks relation view (next value)) :
    Tracks relation view (action >>= next) := by
  intro state
  rw [ends_bind]
  apply ends_imp (tracks state)
  · intro value after related
    apply ends_imp (later value after)
    · exact fun _ _ next => trans_of relation related next
    · exact fun _ _ next => trans_of relation related next
  · exact fun _ _ related => related

theorem tracks_map {action : Action σ α} (change : α → β) (tracks : Tracks relation view action) :
    Tracks relation view (change <$> action) := by
  rw [← bind_pure_comp]
  exact tracks_bind tracks fun _ => tracks_pure _

end Action

open PagedStore.Action

namespace Beside

variable {μ α β γ τ : Type} {relation : τ → τ → Prop}

theorem tracks_onStore {view : α × Store μ → τ} (inner : Store μ → τ)
    (sees : ∀ own store, view (own, store) = inner store) {action : Action (Store μ) γ}
    (tracks : Tracks relation inner action) : Tracks relation view (onStore action) := by
  refine tracks_within ?_ ?_ tracks
  · rintro ⟨own, store⟩
    exact sees own store
  · rintro changed ⟨own, store⟩
    exact sees own changed

theorem tracks_onFirst {view : (α × β) × Store μ → τ} (inner : α × Store μ → τ)
    (sees : ∀ own other store, view ((own, other), store) = inner (own, store))
    {action : Action (α × Store μ) γ} (tracks : Tracks relation inner action) :
    Tracks relation view (onFirst action) := by
  refine tracks_within ?_ ?_ tracks
  · rintro ⟨⟨own, other⟩, store⟩
    exact sees own other store
  · rintro changed ⟨⟨own, other⟩, store⟩
    exact sees changed.1 other changed.2

theorem tracks_onSecond {view : (α × β) × Store μ → τ} (inner : β × Store μ → τ)
    (sees : ∀ own other store, view ((own, other), store) = inner (other, store))
    {action : Action (β × Store μ) γ} (tracks : Tracks relation inner action) :
    Tracks relation view (onSecond action) := by
  refine tracks_within ?_ ?_ tracks
  · rintro ⟨⟨own, other⟩, store⟩
    exact sees own other store
  · rintro changed ⟨⟨own, other⟩, store⟩
    exact sees own changed.1 changed.2

variable [IsPreorder τ relation] {view : α × Store μ → τ}

theorem tracks_own : Tracks relation view own := tracks_of_same fun _ => rfl

theorem tracks_modifyOwn {change : α → α}
    (same : ∀ own store, view (change own, store) = view (own, store)) :
    Tracks relation view (modifyOwn change) :=
  tracks_of_same fun state => same state.1 state.2

end Beside

namespace Stage

variable {μ α γ τ : Type} {relation : τ → τ → Prop} [IsPreorder τ relation]
  {produce : Action (α × Store μ) (Option Row)}

section

variable {view : Stage α × Store μ → τ}

theorem tracks_checkOpen : Tracks relation view checkOpen := by
  apply tracks_bind Beside.tracks_own
  intro stage
  cases stage.opened with
  | true => exact tracks_pure ()
  | false => exact tracks_throw _

theorem tracks_next? (asks : Tracks relation view (hasNext produce))
    (takes : Tracks relation view (next produce)) : Tracks relation view (next? produce) := by
  apply tracks_bind asks
  intro more
  cases more with
  | true => exact tracks_map some takes
  | false => exact tracks_pure none

theorem tracks_firstPassing (gives : Tracks relation view (next? produce))
    (test : Row → Except Error Bool) (steps : Nat) :
    Tracks relation view (firstPassing produce test steps) := by
  induction steps with
  | zero => exact tracks_throw _
  | succ steps ih =>
    apply tracks_bind gives
    intro row
    cases row with
    | none => exact tracks_pure none
    | some row =>
      apply tracks_bind (tracks_ofExcept (test row))
      intro passes
      cases passes with
      | true => exact tracks_pure _
      | false => exact ih

variable (inner : α × Store μ → τ)
  (sees : ∀ stage store, view (stage, store) = inner (stage.inner, store))

include sees

omit [IsPreorder τ relation] in
theorem tracks_onInner {action : Action (α × Store μ) γ} (tracks : Tracks relation inner action) :
    Tracks relation view (onInner action) := by
  refine tracks_within ?_ ?_ tracks
  · rintro ⟨stage, store⟩
    exact sees stage store
  · rintro changed ⟨stage, store⟩
    exact sees { stage with inner := changed.1 } changed.2

theorem tracks_rewind : Tracks relation view rewind := by
  apply tracks_bind tracks_checkOpen
  intro _
  apply Beside.tracks_modifyOwn
  intro stage store
  rw [sees, sees]

theorem tracks_hasNext (produces : Tracks relation inner produce) :
    Tracks relation view (hasNext produce) := by
  apply tracks_bind tracks_checkOpen
  intro _
  apply tracks_bind Beside.tracks_own
  intro stage
  have answers : Tracks relation view
      (do pure (← Beside.own).lookahead.isSome : Action (Stage α × Store μ) Bool) :=
    tracks_bind Beside.tracks_own fun _ => tracks_pure _
  dsimp only
  split
  · apply tracks_bind (tracks_onInner inner sees produces)
    intro row
    refine tracks_bind (Beside.tracks_modifyOwn ?_) fun _ => answers
    intro stage store
    rw [sees, sees]
  · exact answers

theorem tracks_next (produces : Tracks relation inner produce) :
    Tracks relation view (next produce) := by
  apply tracks_bind (tracks_hasNext inner sees produces)
  intro _
  apply tracks_bind Beside.tracks_own
  intro stage
  split
  · exact tracks_throw _
  · refine tracks_bind (Beside.tracks_modifyOwn ?_) fun _ => tracks_pure _
    intro stage store
    rw [sees, sees]

/-- A row is asked for by seeing whether there is one and then taking it. -/
theorem tracks_next?_of_produces (produces : Tracks relation inner produce) :
    Tracks relation view (next? produce) :=
  tracks_next? (tracks_hasNext inner sees produces) (tracks_next inner sees produces)

end

theorem tracks_forEach {view : (γ × Stage α) × Store μ → τ} {apply : Row → Action (γ × Store μ) Unit}
    (gives : Tracks relation view (Beside.onSecond (next? produce)))
    (applies : ∀ row, Tracks relation view (Beside.onFirst (apply row))) (steps : Nat) :
    Tracks relation view (forEach produce apply steps) := by
  induction steps with
  | zero => exact tracks_throw _
  | succ steps ih =>
    apply tracks_bind gives
    intro row
    cases row with
    | none => exact tracks_pure ()
    | some row => exact tracks_bind (applies row) fun _ => ih

end Stage

/-- What is done to the state of an operator, whatever its plan. -/
theorem Operator.tracks_onState {μ α τ : Type} {relation : τ → τ → Prop}
    {view : Operator × Store μ → τ}
    {action : (plan : Plan) → Action (Stage plan.Inner × Store μ) α}
    (tracks : ∀ plan, Tracks relation (fun state => view (⟨plan, state.1⟩, state.2)) (action plan)) :
    Tracks relation view (onState action) := by
  rintro ⟨operator, store⟩
  rw [ends_onState]
  exact tracks operator.plan (operator.state, store)

end PagedStore
