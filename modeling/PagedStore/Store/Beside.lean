import PagedStore.Store.Basic

/-!
Actions on a store that has something else beside it: the position of a reader, or the state of a
query. Each runs an action that needs less on a larger state and leaves the rest as it was.
-/

namespace PagedStore.Beside

variable {μ α β γ : Type}

def onStore (action : Action (Store μ) γ) : Action (α × Store μ) γ :=
  Action.within Prod.snd (fun store both => (both.1, store)) action

def onFirst (action : Action (α × Store μ) γ) : Action ((α × β) × Store μ) γ :=
  Action.within (fun state => (state.1.1, state.2))
    (fun part state => ((part.1, state.1.2), part.2)) action

def onSecond (action : Action (β × Store μ) γ) : Action ((α × β) × Store μ) γ :=
  Action.within (fun state => (state.1.2, state.2))
    (fun part state => ((state.1.1, part.1), part.2)) action

def own : Action (α × Store μ) α := return (← get).1

def modifyOwn (change : α → α) : Action (α × Store μ) Unit :=
  modify fun state => (change state.1, state.2)

end PagedStore.Beside
