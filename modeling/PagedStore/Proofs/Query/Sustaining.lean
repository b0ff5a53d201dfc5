import PagedStore.Proofs.Query.ResultTypes
import PagedStore.Proofs.Scan.Drain

/-!
Actions that sustain an invariant. An action sustains a condition on the store and an invariant of what
stands beside it if it keeps both, however it ends, gives nothing but good values and fails only as it
may. There is one rule for each way of building an action. With them it is shown once that a cursor gives
rows of its table if it finds such rows, and that a stage hands on rows as good as those that are
produced below it.
-/

namespace PagedStore

variable {μ : Type}

/-- Begun beside a sound store and where the invariant holds, the action leaves both so. It gives good
values only and fails as it may. -/
def Beside.Sustains {α γ : Type} (sound : Store μ → Prop) (holds : α → Prop)
    (fails : Fault → α → Prop) (good : γ → Prop) (action : Action (α × Store μ) γ) : Prop :=
  ∀ own store, sound store → holds own →
    Action.Ends action (own, store) (fun value after => sound after.2 ∧ holds after.1 ∧ good value)
      fun fault after => sound after.2 ∧ holds after.1 ∧ fails fault after.1

namespace Beside

variable {α β γ δ : Type} {sound : Store μ → Prop} {holds : α → Prop} {fails : Fault → α → Prop}
  {good : γ → Prop}

theorem sustains_pure {value : γ} (isGood : good value) :
    Sustains sound holds fails good (pure value : Action (α × Store μ) γ) :=
  fun _ _ isSound held => ⟨isSound, held, isGood⟩

theorem sustains_throw {fault : Fault} (may : ∀ own, fails fault own) :
    Sustains sound holds fails good (throw fault : Action (α × Store μ) γ) :=
  fun own _ isSound held => ⟨isSound, held, may own⟩

theorem sustains_own : Sustains sound holds fails holds own :=
  fun _ _ isSound held => ⟨isSound, held, held⟩

theorem sustains_get :
    Sustains sound holds fails (fun state => sound state.2 ∧ holds state.1) get :=
  fun _ _ isSound held => ⟨isSound, held, isSound, held⟩

theorem sustains_modifyOwn {change : α → α} (keeps : ∀ own, holds own → holds (change own)) :
    Sustains sound holds fails (fun _ => True) (modifyOwn change) :=
  fun own _ isSound held => ⟨isSound, keeps own held, trivial⟩

theorem sustains_bind {first : Action (α × Store μ) γ} {next : γ → Action (α × Store μ) δ}
    {goodLater : δ → Prop} (sustains : Sustains sound holds fails good first)
    (later : ∀ value, good value → Sustains sound holds fails goodLater (next value)) :
    Sustains sound holds fails goodLater (first >>= next) := by
  intro own store isSound held
  rw [Action.ends_bind]
  apply Action.ends_imp (sustains own store isSound held)
  · rintro value ⟨own, store⟩ ⟨soundNow, heldNow, isGood⟩
    exact later value isGood own store soundNow heldNow
  · exact fun _ _ failed => failed

theorem sustains_imp {action : Action (α × Store μ) γ} {failsToo : Fault → α → Prop}
    {goodToo : γ → Prop} (sustains : Sustains sound holds fails good action)
    (faults : ∀ fault own, fails fault own → failsToo fault own)
    (goods : ∀ value, good value → goodToo value) :
    Sustains sound holds failsToo goodToo action := by
  intro own store isSound held
  apply Action.ends_imp (sustains own store isSound held)
  · rintro value after ⟨soundNow, heldNow, isGood⟩
    exact ⟨soundNow, heldNow, goods value isGood⟩
  · rintro fault after ⟨soundNow, heldNow, failed⟩
    exact ⟨soundNow, heldNow, faults fault after.1 failed⟩

/-- An action on a part of what stands beside the store. -/
theorem sustains_within (part : β → α) (replace : α → β → β) {holdsWhole : β → Prop}
    {failsWhole : Fault → β → Prop} (inside : ∀ whole, holdsWhole whole → holds (part whole))
    (outside : ∀ whole piece, holdsWhole whole → holds piece → holdsWhole (replace piece whole))
    (faults : ∀ fault whole piece, fails fault piece → failsWhole fault (replace piece whole))
    {action : Action (α × Store μ) γ} (sustains : Sustains sound holds fails good action) :
    Sustains sound holdsWhole failsWhole good
      (Action.within (fun state : β × Store μ => (part state.1, state.2))
        (fun piece state => (replace piece.1 state.1, piece.2)) action) := by
  intro whole store isSound held
  rw [Action.ends_within]
  apply Action.ends_imp (sustains (part whole) store isSound (inside whole held))
  · rintro value after ⟨soundNow, heldNow, isGood⟩
    exact ⟨soundNow, outside whole after.1 held heldNow, isGood⟩
  · rintro fault after ⟨soundNow, heldNow, failed⟩
    exact ⟨soundNow, outside whole after.1 held heldNow, faults fault whole after.1 failed⟩

end Beside

open Beside

namespace Cursor

variable {file : HeapFile}

def Typed (file : HeapFile) (cursor : Cursor) : Prop := file.schema.Admits cursor.found

/-- A row that is found on a page of these column types fits. -/
theorem fits_of_nextRow {schema : Schema} {start slot : Nat} {page : Page} {row : Row}
    (formed : page.Formed) (types : page.schema.types = schema.types)
    (found : page.nextRow? start = some (slot, row)) : row.Fits schema := by
  have held := formed.holds slot row (Page.nextRow_eq_some found).2.1
  have columns := ((Schema.agrees_iff _ _).mp held.agrees).trans types
  exact Row.fits_iff.mpr ⟨columns, held.typed.trans columns⟩

variable {sound : Store μ → Prop} {fails : Fault → Cursor → Prop}
  (errors : ∀ cause cursor, fails (.error cause) cursor)

include errors

theorem sustains_checkOpen : Sustains sound (Typed file) fails (fun _ => True) checkOpen := by
  apply sustains_bind sustains_own
  intro cursor _
  cases cursor.opened with
  | true => exact sustains_pure trivial
  | false => exact sustains_throw (errors _)

theorem sustains_rewind : Sustains sound (Typed file) fails (fun _ => True) rewind :=
  sustains_bind (sustains_checkOpen errors) fun _ _ =>
    sustains_modifyOwn fun _ _ => Schema.admits_none _

/-- The row that a cursor gives is the one that it has found. -/
theorem sustains_next [EvictionPolicy μ]
    (asks : Sustains sound (Typed file) fails (fun _ => True) (hasNext file)) :
    Sustains sound (Typed file) fails (fun row => row.Fits file.schema) (next file) := by
  apply sustains_bind asks
  intro _ _
  apply sustains_bind sustains_own
  intro cursor typed
  split
  · exact sustains_throw (errors _)
  · next row found =>
    refine sustains_bind (sustains_modifyOwn fun _ _ => Schema.admits_none _) ?_
    exact fun _ _ => sustains_pure (typed row found)

end Cursor

namespace Stage

variable {α γ : Type} {holds : α → Prop} {schema : Schema}

structure Typed (holds : α → Prop) (schema : Schema) (stage : Stage α) : Prop where
  ahead : schema.Admits stage.lookahead
  inner : holds stage.inner

theorem typed_emptied {stage : Stage α} (typed : Typed holds schema stage) (opened : Bool) :
    Typed holds schema { stage with opened, lookahead := none } :=
  ⟨schema.admits_none, typed.inner⟩

variable {sound : Store μ → Prop} {good : γ → Prop}

theorem sustains_onInner {fails : Fault → α → Prop} {failsWhole : Fault → Stage α → Prop}
    (faults : ∀ fault (stage : Stage α) piece, fails fault piece →
      failsWhole fault { stage with inner := piece })
    {action : Action (α × Store μ) γ} (sustains : Sustains sound holds fails good action) :
    Sustains sound (Typed holds schema) failsWhole good (onInner action) :=
  sustains_within inner (fun piece stage => { stage with inner := piece })
    (fun _ typed => typed.inner) (fun _ _ typed held => ⟨typed.ahead, held⟩) faults sustains

variable {fails : Fault → Stage α → Prop} (errors : ∀ cause stage, fails (.error cause) stage)

include errors

theorem sustains_checkOpen : Sustains sound (Typed holds schema) fails (fun _ => True) checkOpen := by
  apply sustains_bind sustains_own
  intro stage _
  cases stage.opened with
  | true => exact sustains_pure trivial
  | false => exact sustains_throw (errors _)

theorem sustains_rewind : Sustains sound (Typed holds schema) fails (fun _ => True) rewind :=
  sustains_bind (sustains_checkOpen errors) fun _ _ =>
    sustains_modifyOwn fun stage typed => typed_emptied typed stage.opened

variable {produce : Action (α × Store μ) (Option Row)}
  (produces : Sustains sound (Typed holds schema) fails schema.Admits (onInner produce))

include produces

theorem sustains_hasNext :
    Sustains sound (Typed holds schema) fails (fun _ => True) (hasNext produce) := by
  have answers : Sustains sound (Typed holds schema) fails (fun _ => True)
      (do pure (← Beside.own).lookahead.isSome) :=
    sustains_bind sustains_own fun _ _ => sustains_pure trivial
  apply sustains_bind (sustains_checkOpen errors)
  intro _ _
  apply sustains_bind sustains_own
  intro stage _
  dsimp only
  split
  · apply sustains_bind produces
    intro found fits
    exact sustains_bind (sustains_modifyOwn fun _ typed => ⟨fits, typed.inner⟩) fun _ _ => answers
  · exact answers

/-- Every row that a stage gives out was produced below it. -/
theorem sustains_next :
    Sustains sound (Typed holds schema) fails (fun row => row.Fits schema) (next produce) := by
  apply sustains_bind (sustains_hasNext errors produces)
  intro _ _
  apply sustains_bind sustains_own
  intro stage typed
  split
  · exact sustains_throw (errors _)
  · next row ahead =>
    refine sustains_bind (sustains_modifyOwn fun stage typed => typed_emptied typed stage.opened) ?_
    exact fun _ _ => sustains_pure (typed.ahead row ahead)

end Stage

end PagedStore
