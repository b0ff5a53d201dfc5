import PagedStore.Error

/-!
Actions read and change a state and may fail. A failure keeps what was changed before it, since the
changes have happened by then, and what would have followed is left out.
-/

namespace PagedStore

abbrev Action (σ : Type) := EStateM Fault σ

namespace Action

variable {σ τ α : Type}

def fail (cause : Error) : Action σ α := throw (.error cause)

def ofFault : Except Fault α → Action σ α
  | .ok value => pure value
  | .error fault => throw fault

def ofExcept : Except Error α → Action σ α
  | .ok value => pure value
  | .error cause => fail cause

def within (part : σ → τ) (replace : τ → σ → σ) (action : Action τ α) : Action σ α := fun state =>
  match action (part state) with
  | .ok value changed => .ok value (replace changed state)
  | .error fault changed => .error fault (replace changed state)

/-- Runs an action and goes on after it even if it fails. -/
def attempt (action : Action σ Unit) : Action σ Unit := fun state =>
  match action state with
  | .ok _ changed | .error _ changed => .ok () changed

variable {β : Type}

theorem bind_apply (action : Action σ α) (next : α → Action σ β) (state : σ) :
    (action >>= next) state = match action state with
      | .ok value changed => next value changed
      | .error fault changed => .error fault changed := by
  change EStateM.bind action next state = _
  unfold EStateM.bind
  cases action state <;> rfl

theorem get_apply (state : σ) : (get : Action σ σ) state = .ok state state := rfl

theorem modify_apply (change : σ → σ) (state : σ) :
    (modify change : Action σ PUnit) state = .ok ⟨⟩ (change state) := rfl

theorem ofFault_apply (outcome : Except Fault α) (state : σ) :
    ofFault outcome state = match outcome with
      | .ok value => .ok value state
      | .error fault => .error fault state := by
  cases outcome <;> rfl

theorem ofExcept_apply (outcome : Except Error α) (state : σ) :
    ofExcept outcome state = match outcome with
      | .ok value => .ok value state
      | .error cause => .error (.error cause) state := by
  cases outcome <;> rfl

end Action

end PagedStore
