import PagedStore.Action

/-!
Reasoning about actions by what holds when they end. `Ends action state done failed` says that the
action, begun in the state, ends in a state and with a value of which `done` holds, or fails with a
fault and in a state of which `failed` holds. There is one rule for each way of building an action, so
a program is followed step by step from its first state.
-/

namespace PagedStore.Action

variable {σ τ α β : Type}

def Ends (action : Action σ α) (state : σ) (done : α → σ → Prop) (failed : Fault → σ → Prop) :
    Prop :=
  match action state with
  | .ok value after => done value after
  | .error fault after => failed fault after

def outcome (action : Action σ α) (state : σ) : Except Fault α × σ :=
  match action state with
  | .ok value after => (.ok value, after)
  | .error fault after => (.error fault, after)

variable {state : σ} {done : α → σ → Prop} {failed : Fault → σ → Prop}

theorem ends_pure (value : α) : Ends (pure value) state done failed ↔ done value state :=
  Iff.rfl

theorem ends_fail (cause : Error) :
    Ends (fail cause) state done failed ↔ failed (.error cause) state :=
  Iff.rfl

theorem ends_get {done : σ → σ → Prop} : Ends get state done failed ↔ done state state :=
  Iff.rfl

theorem ends_set (after : σ) {done : PUnit → σ → Prop} :
    Ends (set after) state done failed ↔ done ⟨⟩ after :=
  Iff.rfl

theorem ends_modify (change : σ → σ) {done : PUnit → σ → Prop} :
    Ends (modify change) state done failed ↔ done ⟨⟩ (change state) :=
  Iff.rfl

theorem ends_bind (action : Action σ α) (next : α → Action σ β) {done : β → σ → Prop} :
    Ends (action >>= next) state done failed ↔
      Ends action state (fun value after => Ends (next value) after done failed) failed := by
  simp only [Ends, bind_apply]
  cases action state <;> rfl

theorem ends_map (change : α → β) (action : Action σ α) {done : β → σ → Prop} :
    Ends (change <$> action) state done failed ↔
      Ends action state (fun value after => done (change value) after) failed := by
  rw [← bind_pure_comp, ends_bind]
  rfl

theorem ends_ofExcept (outcome : Except Error α) :
    Ends (ofExcept outcome) state done failed ↔ match outcome with
      | .ok value => done value state
      | .error cause => failed (.error cause) state := by
  cases outcome <;> rfl

theorem ends_ofFault (outcome : Except Fault α) :
    Ends (ofFault outcome) state done failed ↔ match outcome with
      | .ok value => done value state
      | .error fault => failed fault state := by
  cases outcome <;> rfl

theorem ends_within (part : σ → τ) (replace : τ → σ → σ) (action : Action τ α) :
    Ends (within part replace action) state done failed ↔
      Ends action (part state) (fun value changed => done value (replace changed state))
        fun fault changed => failed fault (replace changed state) := by
  simp only [Ends, within]
  cases action (part state) <;> rfl

theorem ends_attempt (action : Action σ Unit) {done : Unit → σ → Prop} :
    Ends (attempt action) state done failed ↔
      Ends action state (fun _ after => done () after) fun _ after => done () after := by
  simp only [Ends, attempt]
  cases action state <;> rfl

theorem ends_imp {action : Action σ α} {done' : α → σ → Prop} {failed' : Fault → σ → Prop}
    (ends : Ends action state done failed) (onDone : ∀ value after, done value after → done' value after)
    (onFailed : ∀ fault after, failed fault after → failed' fault after) :
    Ends action state done' failed' := by
  unfold Ends at ends ⊢
  cases outcome : action state with
  | ok value after =>
    rw [outcome] at ends
    exact onDone value after ends
  | error fault after =>
    rw [outcome] at ends
    exact onFailed fault after ends

/-- What holds of every end holds of the one that an action has. -/
theorem ends_of_forall (action : Action σ α) (onDone : ∀ value after, done value after)
    (onFailed : ∀ fault after, failed fault after) : Ends action state done failed := by
  unfold Ends
  split
  · exact onDone _ _
  · exact onFailed _ _

/-- How an action ends under a condition that is known of the state before it. -/
theorem ends_given {given : Prop} {action : Action σ α} (ends : given → Ends action state done failed) :
    Ends action state (fun value after => given → done value after)
      fun fault after => given → failed fault after := by
  by_cases holds : given
  · exact ends_imp (ends holds) (fun _ _ isDone _ => isDone) fun _ _ hasFailed _ => hasFailed
  · exact ends_of_forall action (fun _ _ claim => absurd claim holds) fun _ _ claim => absurd claim holds

/-- An action that never fails ends as it may end. -/
theorem ends_of_never_fails {action : Action σ α} {done' : α → σ → Prop}
    (ends : Ends action state done fun _ _ => False)
    (onDone : ∀ value after, done value after → done' value after) :
    Ends action state done' failed :=
  ends_imp ends onDone fun _ _ impossible => impossible.elim

theorem ends_and {action : Action σ α} {done' : α → σ → Prop} {failed' : Fault → σ → Prop}
    (ends : Ends action state done failed) (also : Ends action state done' failed') :
    Ends action state (fun value after => done value after ∧ done' value after)
      fun fault after => failed fault after ∧ failed' fault after := by
  unfold Ends at ends also ⊢
  cases outcome : action state with
  | ok value after =>
    rw [outcome] at ends also
    exact ⟨ends, also⟩
  | error fault after =>
    rw [outcome] at ends also
    exact ⟨ends, also⟩

/-- An action ends as its outcome says. -/
theorem ends_outcome (action : Action σ α) (state : σ) :
    Ends action state (fun value after => outcome action state = (.ok value, after))
      fun fault after => outcome action state = (.error fault, after) := by
  unfold Ends outcome
  cases action state <;> rfl

theorem ends_leaves_outcome (action : Action σ α) (state : σ) :
    Ends action state (fun _ after => (outcome action state).2 = after)
      fun _ after => (outcome action state).2 = after :=
  ends_imp (ends_outcome action state) (fun _ _ same => congrArg Prod.snd same)
    fun _ _ same => congrArg Prod.snd same

/-- An action has one of two outcomes, and what is said of it holds of the one it has. -/
theorem outcome_of_ends {action : Action σ α} (ends : Ends action state done failed) :
    (∃ value, (outcome action state).1 = .ok value ∧ done value (outcome action state).2) ∨
      ∃ fault, (outcome action state).1 = .error fault ∧ failed fault (outcome action state).2 := by
  unfold Ends at ends
  unfold outcome
  cases ended : action state with
  | ok value after =>
    rw [ended] at ends
    exact Or.inl ⟨value, rfl, ends⟩
  | error fault after =>
    rw [ended] at ends
    exact Or.inr ⟨fault, rfl, ends⟩

theorem done_of_outcome {action : Action σ α} (ends : Ends action state done failed) {value : α}
    (given : (outcome action state).1 = .ok value) : done value (outcome action state).2 := by
  rcases outcome_of_ends ends with ⟨other, ended, holds⟩ | ⟨fault, ended, -⟩
  · obtain rfl := Except.ok.inj (ended.symm.trans given)
    exact holds
  · rw [given] at ended
    contradiction

theorem failed_of_outcome {action : Action σ α} (ends : Ends action state done failed)
    {fault : Fault} (refused : (outcome action state).1 = .error fault) :
    failed fault (outcome action state).2 := by
  rcases outcome_of_ends ends with ⟨value, ended, -⟩ | ⟨other, ended, holds⟩
  · rw [refused] at ended
    contradiction
  · obtain rfl := Except.error.inj (ended.symm.trans refused)
    exact holds

theorem done_of_outcome_eq {action : Action σ α} (ends : Ends action state done failed) {value : α}
    {after : σ} (ended : outcome action state = (.ok value, after)) : done value after := by
  have holds := done_of_outcome ends (congrArg Prod.fst ended)
  rw [ended] at holds
  exact holds

theorem failed_of_outcome_eq {action : Action σ α} (ends : Ends action state done failed)
    {fault : Fault} {after : σ} (ended : outcome action state = (.error fault, after)) :
    failed fault after := by
  have holds := failed_of_outcome ends (congrArg Prod.fst ended)
  rw [ended] at holds
  exact holds

/-- What is said of the state after an action, however it ends. -/
theorem after_of_ends {action : Action σ α} {P : σ → Prop}
    (ends : Ends action state (fun _ after => P after) fun _ after => P after) :
    P (outcome action state).2 := by
  rcases outcome_of_ends ends with ⟨_, -, holds⟩ | ⟨_, -, holds⟩
  · exact holds
  · exact holds

theorem outcome_of_never_fails {action : Action σ α}
    (ends : Ends action state done fun _ _ => False) :
    ∃ value, (outcome action state).1 = .ok value ∧ done value (outcome action state).2 := by
  rcases outcome_of_ends ends with succeeded | ⟨fault, -, impossible⟩
  · exact succeeded
  · exact impossible.elim

end PagedStore.Action
