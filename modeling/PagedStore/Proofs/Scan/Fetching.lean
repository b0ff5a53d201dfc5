import PagedStore.Proofs.Scan.Drain

/-!
Whoever gives out rows is called in one of five ways. A cursor does nothing to a store in any of them
but fetch pages. A relation between stores that is reflexive and transitive and holds across every
fetch therefore holds across every call of every cursor, wherever it stands and however the call ends,
and across reading a whole table.
-/

namespace PagedStore

/-- What a cursor or an operator can be asked. -/
inductive Call where
  | start
  | close
  | rewind
  | hasNext
  | next
deriving DecidableEq

/-- The calls that are answered only by what is open. -/
def Call.Asks (call : Call) : Prop := call = rewind ∨ call = hasNext ∨ call = next

inductive Reply where
  | done
  | more (more : Bool)
  | row (row : Row)
deriving DecidableEq

variable {μ α β γ δ : Type}

def Cursor.perform [EvictionPolicy μ] (file : HeapFile) : Call → Action (Cursor × Store μ) Reply
  | .start => do
      Beside.modifyOwn start
      pure .done
  | .close => do
      Beside.modifyOwn close
      pure .done
  | .rewind => do
      rewind
      pure .done
  | .hasNext => do return .more (← hasNext file)
  | .next => do return .row (← next file)

structure Store.FetchClosed [EvictionPolicy μ] (relation : Store μ → Store μ → Prop) : Prop where
  refl : ∀ store, relation store store
  trans : ∀ {first second third}, relation first second → relation second third →
    relation first third
  fetch : ∀ store id, Action.Ends (fetch id) store (fun _ after => relation store after)
    fun _ after => relation store after

/-- However the action ends, the store after it stands in the relation to the store before it. -/
def Beside.Spans (relation : Store μ → Store μ → Prop) (action : Action (α × Store μ) γ) : Prop :=
  ∀ own store, Action.Ends action (own, store) (fun _ after => relation store after.2)
    fun _ after => relation store after.2

variable [EvictionPolicy μ] {relation : Store μ → Store μ → Prop}

namespace Beside

section

variable (closed : Store.FetchClosed relation)

include closed

theorem spans_pure (value : γ) : Spans relation (pure value : Action (α × Store μ) γ) :=
  fun _ store => closed.refl store

theorem spans_throw (fault : Fault) : Spans relation (throw fault : Action (α × Store μ) γ) :=
  fun _ store => closed.refl store

theorem spans_get : Spans relation (get : Action (α × Store μ) _) :=
  fun _ store => closed.refl store

theorem spans_modifyOwn (change : α → α) : Spans (μ := μ) relation (modifyOwn change) :=
  fun _ store => closed.refl store

theorem spans_own : Spans (α := α) relation own :=
  fun _ store => closed.refl store

theorem spans_ofFault (outcome : Except Fault γ) :
    Spans (α := α) relation (Action.ofFault outcome) := by
  cases outcome with
  | ok value => exact spans_pure closed value
  | error fault => exact spans_throw closed fault

theorem spans_fetch (id : PageId) : Spans (α := α) relation (onStore (Store.fetch id)) := by
  intro own store
  rw [ends_onStore]
  exact closed.fetch store id

theorem spans_bind {action : Action (α × Store μ) γ} {next : γ → Action (α × Store μ) δ}
    (spans : Spans relation action) (later : ∀ value, Spans relation (next value)) :
    Spans relation (action >>= next) := by
  intro own store
  rw [Action.ends_bind]
  apply Action.ends_imp (spans own store)
  · intro value after reached
    apply Action.ends_imp (later value after.1 after.2)
    · exact fun _ _ next => closed.trans reached next
    · exact fun _ _ next => closed.trans reached next
  · exact fun _ _ reached => reached

end

omit [EvictionPolicy μ]

theorem spans_onFirst {action : Action (α × Store μ) γ} (spans : Spans relation action) :
    Spans (α := α × β) relation (onFirst action) := by
  intro own store
  rw [onFirst, Action.ends_within]
  exact spans own.1 store

theorem spans_onSecond {action : Action (β × Store μ) γ} (spans : Spans relation action) :
    Spans (α := α × β) relation (onSecond action) := by
  intro own store
  rw [onSecond, Action.ends_within]
  exact spans own.2 store

theorem spans_onInner {action : Action (α × Store μ) γ} (spans : Spans relation action) :
    Spans relation (Stage.onInner action) := by
  intro stage store
  rw [Stage.onInner, Action.ends_within]
  exact spans stage.inner store

end Beside

open Beside

section

variable (closed : Store.FetchClosed relation)

include closed

namespace Cursor

variable (file : HeapFile)

theorem spans_checkOpen : Spans relation (checkOpen (μ := μ)) := by
  apply spans_bind closed (spans_own closed)
  intro cursor
  cases cursor.opened with
  | true => exact spans_pure closed ()
  | false => exact spans_throw closed _

theorem spans_rewind : Spans relation (rewind (μ := μ)) :=
  spans_bind closed (spans_checkOpen closed) fun _ => spans_modifyOwn closed start

theorem spans_search (turns : Nat) : Spans relation (search file turns) := by
  induction turns with
  | zero => exact spans_throw closed _
  | succ turns ih =>
    apply spans_bind closed (spans_get closed)
    intro state
    dsimp only
    split
    · exact spans_pure closed none
    · apply spans_bind closed (spans_fetch closed _)
      intro frame
      split
      · exact spans_bind closed (spans_modifyOwn closed _) fun _ => spans_pure closed _
      · exact spans_bind closed (spans_modifyOwn closed _) fun _ => ih

theorem spans_hasNext : Spans relation (hasNext file) := by
  apply spans_bind closed (spans_checkOpen closed)
  intro _
  apply spans_bind closed (spans_own closed)
  intro cursor
  have answers : Spans relation (do pure (← Beside.own).found.isSome : Action (Cursor × Store μ) Bool) :=
    spans_bind closed (spans_own closed) fun _ => spans_pure closed _
  dsimp only
  split
  · apply spans_bind closed (spans_search closed file _)
    intro found
    exact spans_bind closed (spans_modifyOwn closed _) fun _ => answers
  · exact answers

theorem spans_next : Spans relation (next file) := by
  apply spans_bind closed (spans_hasNext closed file)
  intro _
  apply spans_bind closed (spans_own closed)
  intro cursor
  split
  · exact spans_throw closed _
  · exact spans_bind closed (spans_modifyOwn closed _) fun _ => spans_pure closed _

theorem spans_perform (call : Call) : Spans relation (perform file call) := by
  cases call with
  | start => exact spans_bind closed (spans_modifyOwn closed _) fun _ => spans_pure closed _
  | close => exact spans_bind closed (spans_modifyOwn closed _) fun _ => spans_pure closed _
  | rewind => exact spans_bind closed (spans_rewind closed) fun _ => spans_pure closed _
  | hasNext => exact spans_bind closed (spans_hasNext closed file) fun _ => spans_pure closed _
  | next => exact spans_bind closed (spans_next closed file) fun _ => spans_pure closed _

end Cursor

namespace Stage

variable {produce : Action (α × Store μ) (Option Row)} (produces : Spans relation produce)

theorem spans_checkOpen : Spans (α := Stage α) relation checkOpen := by
  apply spans_bind closed (spans_own closed)
  intro stage
  cases stage.opened with
  | true => exact spans_pure closed ()
  | false => exact spans_throw closed _

include produces

theorem spans_hasNext : Spans relation (hasNext produce) := by
  apply spans_bind closed (spans_checkOpen closed)
  intro _
  apply spans_bind closed (spans_own closed)
  intro stage
  have answers : Spans relation
      (do pure (← Beside.own).lookahead.isSome : Action (Stage α × Store μ) Bool) :=
    spans_bind closed (spans_own closed) fun _ => spans_pure closed _
  dsimp only
  split
  · apply spans_bind closed (spans_onInner produces)
    intro row
    exact spans_bind closed (spans_modifyOwn closed _) fun _ => answers
  · exact answers

theorem spans_next : Spans relation (next produce) := by
  apply spans_bind closed (spans_hasNext closed produces)
  intro _
  apply spans_bind closed (spans_own closed)
  intro stage
  split
  · exact spans_throw closed _
  · exact spans_bind closed (spans_modifyOwn closed _) fun _ => spans_pure closed _

theorem spans_next? : Spans relation (next? produce) := by
  apply spans_bind closed (spans_hasNext closed produces)
  intro more
  split
  · rw [← bind_pure_comp]
    exact spans_bind closed (spans_next closed produces) fun _ => spans_pure closed _
  · exact spans_pure closed none

theorem spans_forEach {apply : Row → Action (β × Store μ) Unit}
    (applies : ∀ row, Spans relation (apply row)) (steps : Nat) :
    Spans relation (forEach produce apply steps) := by
  induction steps with
  | zero => exact spans_throw closed _
  | succ steps ih =>
    apply spans_bind closed (spans_onSecond (spans_next? closed produces))
    intro row
    cases row with
    | none => exact spans_pure closed ()
    | some row => exact spans_bind closed (spans_onFirst (applies row)) fun _ => ih

end Stage

namespace Plan

theorem spans_produceScanned (source : ScanSource) : Spans relation (produceScanned source) := by
  apply spans_bind closed (Cursor.spans_hasNext closed source.file)
  intro more
  split
  · apply spans_bind closed (Cursor.spans_next closed source.file)
    intro stored
    exact spans_bind closed (spans_ofFault closed _) fun _ => spans_pure closed _
  · exact spans_pure closed none

theorem spans_drain (steps : Nat) (source : ScanSource) (store : Store μ) :
    Action.Ends ((scan source).drain steps) store (fun _ after => relation store after)
      fun _ after => relation store after := by
  have opens : Spans relation ((scan source).start steps) :=
    spans_bind closed (spans_onInner (spans_modifyOwn closed Cursor.start)) fun _ =>
      spans_modifyOwn closed _
  have takes : Spans relation (Stage.forEach (produceScanned source) collect steps) :=
    Stage.spans_forEach closed (spans_produceScanned closed source)
      (fun row => spans_modifyOwn closed (· ++ [row])) steps
  have gives : Spans (α := List Row × Stage Cursor) relation (do return (← get).1.1) :=
    spans_bind closed (spans_get closed) fun _ => spans_pure closed _
  rw [drain, Action.ends_within]
  exact spans_bind closed (spans_onSecond opens) (fun _ => spans_bind closed takes fun _ => gives)
    ([], Stage.unopened (initial (scan source))) store

end Plan

theorem Store.spans_scan (table : TableId) (name : Option String) (store : Store μ) :
    Action.Ends (scan table name) store (fun _ after => relation store after)
      fun _ after => relation store after := by
  unfold scan
  rw [Action.ends_bind, Action.ends_get, Action.ends_bind, Action.ends_ofExcept, Plan.scanAs]
  cases store.catalog.registration table with
  | error cause => exact closed.refl store
  | ok info =>
    dsimp only [bind, Except.bind, pure, Except.pure]
    refine (Action.ends_bind get _).mpr ?_
    rw [Action.ends_get]
    refine (Action.ends_bind _ _).mpr ?_
    rw [Action.ends_ofExcept]
    cases store.catalog.file table with
    | error cause => exact closed.refl store
    | ok file => exact Plan.spans_drain closed _ _ store

end

/-- Whatever only fetches pages only saves pages. -/
theorem Store.fetchClosed_saves :
    FetchClosed fun before after : Store μ => before.Coherent → Saves before after where
  refl := fun _ coherent => saves_refl coherent
  trans := fun left right coherent => saves_trans (left coherent) (right (left coherent).coherent)
  fetch := by
    intro store id
    refine Action.ends_given fun coherent => ?_
    apply Action.ends_imp (fetch_ends coherent id)
    · exact fun _ _ fetched => fetched.1
    · exact fun _ _ ⟨_, _, _, saves⟩ => saves

end PagedStore
