import PagedStore.Proofs.Pool.Orderly
import PagedStore.Proofs.Pool.Refusals
import PagedStore.Proofs.Query.Sustaining

/-!
Typed actions. An action beside an orderly store respects an invariant of what stands beside the store
if it keeps it, however it ends, gives nothing but good values and breaks no contract without an excuse.
There is one rule for each way of building an action. With them it is shown once that a cursor finds
rows of its table, and that a stage hands on rows as good as those that are produced below it.
-/

namespace PagedStore

variable {μ : Type}

/-- The store is orderly, and its catalog is the one that plans were built against. -/
def Store.Serves (catalog : Catalog) (store : Store μ) : Prop :=
  store.Orderly ∧ store.catalog = catalog

/-- No contract is broken, and a division by zero is excused. -/
def Fault.Allowed (excuse : Prop) : Fault → Prop
  | .error _ | .outOfSteps => True
  | .brokenContract => False
  | .dividedByZero => excuse

theorem Fault.allowed_imp {excuse excuseToo : Prop} (excuses : excuse → excuseToo) {fault : Fault}
    (allowed : fault.Allowed excuse) : fault.Allowed excuseToo := by
  cases fault with
  | error _ | outOfSteps => trivial
  | brokenContract => exact allowed
  | dividedByZero => exact excuses allowed

/-- Begun beside an orderly store and where the invariant holds, the action keeps both. It gives good
values only, breaks no contract, and where it divides by zero there is an excuse. -/
def Beside.Respects {α γ : Type} (catalog : Catalog) (holds excused : α → Prop) (good : γ → Prop)
    (action : Action (α × Store μ) γ) : Prop :=
  ∀ own store, Store.Serves catalog store → holds own →
    Action.Ends action (own, store)
      (fun value after => Store.Serves catalog after.2 ∧ holds after.1 ∧ good value)
      fun fault after => Store.Serves catalog after.2 ∧ holds after.1 ∧
        fault.Allowed (excused after.1)

/-- No excuse is accepted, so the action does not divide by zero either. -/
abbrev Beside.Safe {α γ : Type} (catalog : Catalog) (holds : α → Prop) (good : γ → Prop)
    (action : Action (α × Store μ) γ) : Prop :=
  Respects catalog holds (fun _ => False) good action

def Beside.Both {α β : Type} (first : α → Prop) (second : β → Prop) (both : α × β) : Prop :=
  first both.1 ∧ second both.2

namespace Beside

variable {α β γ δ : Type} {catalog : Catalog} {holds excused : α → Prop} {good : γ → Prop}

/-- To respect an invariant is to sustain it beside a store that serves the catalog. -/
theorem respects_iff {action : Action (α × Store μ) γ} :
    Respects catalog holds excused good action ↔ Sustains (Store.Serves catalog) holds
      (fun fault own => fault.Allowed (excused own)) good action :=
  Iff.rfl

theorem respects_pure {value : γ} (isGood : good value) :
    Respects catalog holds excused good (pure value : Action (α × Store μ) γ) :=
  respects_iff.mpr (sustains_pure isGood)

theorem respects_throw {fault : Fault} (allowed : fault.Allowed False) :
    Respects catalog holds excused good (throw fault : Action (α × Store μ) γ) :=
  respects_iff.mpr (sustains_throw fun _ => Fault.allowed_imp False.elim allowed)

theorem respects_fail (cause : Error) :
    Respects catalog holds excused good (Action.fail cause : Action (α × Store μ) γ) :=
  respects_throw trivial

theorem respects_own : Respects (μ := μ) catalog holds excused holds own :=
  respects_iff.mpr sustains_own

theorem respects_get : Respects (μ := μ) catalog holds excused
    (fun state => Store.Serves catalog state.2 ∧ holds state.1) get :=
  respects_iff.mpr sustains_get

theorem respects_modifyOwn {change : α → α} (keeps : ∀ own, holds own → holds (change own)) :
    Respects (μ := μ) catalog holds excused (fun _ => True) (modifyOwn change) :=
  respects_iff.mpr (sustains_modifyOwn keeps)

theorem respects_ofExcept (outcome : Except Error γ) :
    Respects (μ := μ) catalog holds excused (fun _ => True) (Action.ofExcept outcome) := by
  cases outcome with
  | ok value => exact respects_pure trivial
  | error cause => exact respects_fail cause

theorem respects_ofFault {outcome : Except Fault γ}
    (succeeds : ∃ value, outcome = .ok value ∧ good value) :
    Respects (μ := μ) catalog holds excused good (Action.ofFault outcome) := by
  obtain ⟨value, rfl, isGood⟩ := succeeds
  exact respects_pure isGood

theorem respects_bind {first : Action (α × Store μ) γ} {next : γ → Action (α × Store μ) δ}
    {goodLater : δ → Prop} (respects : Respects catalog holds excused good first)
    (later : ∀ value, good value → Respects catalog holds excused goodLater (next value)) :
    Respects catalog holds excused goodLater (first >>= next) :=
  respects_iff.mpr (sustains_bind (respects_iff.mp respects)
    fun value isGood => respects_iff.mp (later value isGood))

theorem respects_imp {action : Action (α × Store μ) γ} {excusedToo : α → Prop} {goodToo : γ → Prop}
    (respects : Respects catalog holds excused good action)
    (excuses : ∀ own, excused own → excusedToo own) (goods : ∀ value, good value → goodToo value) :
    Respects catalog holds excusedToo goodToo action :=
  respects_iff.mpr (sustains_imp (respects_iff.mp respects)
    (fun _ own allowed => Fault.allowed_imp (excuses own) allowed) goods)

/-- What needs no excuse does not need a particular one. -/
theorem respects_of_safe {action : Action (α × Store μ) γ} (safe : Safe catalog holds good action) :
    Respects catalog holds excused good action :=
  respects_imp safe (fun _ impossible => impossible.elim) fun _ isGood => isGood

/-- An action on a part of what stands beside the store. -/
theorem respects_within (part : β → α) (replace : α → β → β) {holdsWhole excusedWhole : β → Prop}
    (inside : ∀ whole, holdsWhole whole → holds (part whole))
    (outside : ∀ whole piece, holdsWhole whole → holds piece → holdsWhole (replace piece whole))
    (excuses : ∀ whole piece, excused piece → excusedWhole (replace piece whole))
    {action : Action (α × Store μ) γ} (respects : Respects catalog holds excused good action) :
    Respects catalog holdsWhole excusedWhole good
      (Action.within (fun state : β × Store μ => (part state.1, state.2))
        (fun piece state => (replace piece.1 state.1, piece.2)) action) := by
  apply respects_iff.mpr
  refine sustains_within part replace inside outside ?_ (respects_iff.mp respects)
  exact fun _ whole piece => Fault.allowed_imp (excuses whole piece)

theorem respects_onFirst {holdsOther : β → Prop} {action : Action (α × Store μ) γ}
    (respects : Respects catalog holds excused good action) :
    Respects catalog (Both holds holdsOther) (fun both => excused both.1) good (onFirst action) :=
  respects_within Prod.fst (fun piece whole => (piece, whole.2)) (fun _ held => held.1)
    (fun _ _ held heldNow => ⟨heldNow, held.2⟩) (fun _ _ excuse => excuse) respects

theorem respects_onSecond {holdsOther : β → Prop} {action : Action (α × Store μ) γ}
    (respects : Respects catalog holds excused good action) :
    Respects catalog (Both holdsOther holds) (fun both => excused both.2) good (onSecond action) :=
  respects_within Prod.snd (fun piece whole => (whole.1, piece)) (fun _ held => held.2)
    (fun _ _ held heldNow => ⟨held.1, heldNow⟩) (fun _ _ excuse => excuse) respects

theorem safe_onFirst {holdsOther : β → Prop} {action : Action (α × Store μ) γ}
    (safe : Safe catalog holds good action) :
    Safe catalog (Both holds holdsOther) good (onFirst action) :=
  respects_onFirst safe

theorem safe_onSecond {holdsOther : β → Prop} {action : Action (α × Store μ) γ}
    (safe : Safe catalog holds good action) :
    Safe catalog (Both holdsOther holds) good (onSecond action) :=
  respects_onSecond safe

theorem respects_onStore {action : Action (Store μ) γ}
    (serves : ∀ store, Store.Serves catalog store → Action.Ends action store
      (fun value after => Store.Serves catalog after ∧ good value)
      fun _ after => Store.Serves catalog after)
    (answers : Action.Answers action) :
    Respects catalog holds excused good (onStore action) := by
  intro own store servesNow held
  unfold onStore
  rw [Action.ends_within]
  apply Action.ends_imp (Action.ends_and (serves store servesNow) (answers store))
  · exact fun value after ⟨⟨servesThen, isGood⟩, _⟩ => ⟨servesThen, held, isGood⟩
  · rintro fault after ⟨servesThen, cause, rfl⟩
    exact ⟨servesThen, held, trivial⟩

end Beside

namespace Store

variable [EvictionPolicy μ] {catalog : Catalog} {store : Store μ}

theorem closed_serves (catalog : Catalog) : Closed (Serves (μ := μ) catalog) :=
  closed_and closed_orderly (closed_catalog catalog)

theorem serves_of_moved {after : Store μ} (moved : Moved store after)
    (serves : store.Serves catalog) : after.Serves catalog :=
  keeps_of_moved (fun _ _ => (closed_serves catalog).motion) moved serves

theorem fetch_serves (serves : store.Serves catalog) (id : PageId) :
    Action.Ends (fetch id) store
      (fun frame after => after.Serves catalog ∧ ∃ file, catalog.file? id.table = some file ∧
        file.Owns id.number frame.page)
      fun _ after => after.Serves catalog := by
  apply Action.ends_imp (fetch_moves store id)
  · rintro frame after ⟨moved, cached⟩
    have servesNow := serves_of_moved moved serves
    obtain ⟨file, registered, owns, -⟩ := servesNow.1.backed id frame cached
    exact ⟨servesNow, file, servesNow.2 ▸ registered, owns⟩
  · exact fun _ _ moved => serves_of_moved moved serves

theorem insert_serves (serves : store.Serves catalog) (transaction : Transaction) (table : TableId)
    (row : Row) :
    Action.Ends (insert transaction table row) store (fun _ after => after.Serves catalog ∧ True)
      fun _ after => after.Serves catalog := by
  apply Action.ends_imp (insert_moves (tidy_of_orderly serves.1) transaction table row)
  · rintro frame after ⟨middle, id, slot, moved, revised⟩
    exact ⟨(closed_serves catalog).revised revised (serves_of_moved moved serves), trivial⟩
  · exact fun _ _ moved => serves_of_moved moved serves

theorem delete_serves (serves : store.Serves catalog) (transaction : Transaction) (row : Row) :
    Action.Ends (delete transaction row) store (fun _ after => after.Serves catalog ∧ True)
      fun _ after => after.Serves catalog := by
  apply Action.ends_imp (delete_moves (tidy_of_orderly serves.1) transaction row)
  · rintro frame after ⟨middle, record, moved, -, revised⟩
    exact ⟨(closed_serves catalog).revised revised (serves_of_moved moved serves), trivial⟩
  · exact fun _ _ moved => serves_of_moved moved serves

theorem serves_outcome (serves : store.Serves catalog) (operation : Operation) :
    (store.outcome operation).2.Serves catalog :=
  keeps_of_did (closed_serves catalog) (did_outcome (tidy_of_orderly serves.1) operation) serves

end Store

namespace Beside

variable [EvictionPolicy μ] {α : Type} {catalog : Catalog} {holds excused : α → Prop}

/-- A page that is fetched is a page of the file that is registered for it. -/
theorem respects_fetch (id : PageId) : Respects (μ := μ) catalog holds excused
    (fun frame => ∃ file, catalog.file? id.table = some file ∧ file.Owns id.number frame.page)
    (onStore (Store.fetch id)) :=
  respects_onStore (fun _ serves => Store.fetch_serves serves id) (Store.answers_fetch id)

theorem respects_insert (transaction : Transaction) (table : TableId) (row : Row) :
    Respects (μ := μ) catalog holds excused (fun _ => True)
      (onStore (Store.insert transaction table row)) :=
  respects_onStore (fun _ serves => Store.insert_serves serves transaction table row)
    (Store.answers_insert transaction table row)

theorem respects_delete (transaction : Transaction) (row : Row) :
    Respects (μ := μ) catalog holds excused (fun _ => True)
      (onStore (Store.delete transaction row)) :=
  respects_onStore (fun _ serves => Store.delete_serves serves transaction row)
    (Store.answers_delete transaction row)

end Beside

open Beside

namespace Cursor

variable {catalog : Catalog} {file : HeapFile}

theorem safe_checkOpen : Safe (μ := μ) catalog (Typed file) (fun _ => True) checkOpen :=
  respects_iff.mpr (sustains_checkOpen fun _ _ => trivial)

theorem safe_rewind : Safe (μ := μ) catalog (Typed file) (fun _ => True) rewind :=
  respects_iff.mpr (sustains_rewind fun _ _ => trivial)

variable [EvictionPolicy μ]

/-- What is found is a row of a page of the file that is registered for the table. -/
theorem safe_search (registered : catalog.file? file.table = some file) (turns : Nat) :
    Safe (μ := μ) catalog (Typed file) file.schema.Admits (search file turns) := by
  induction turns with
  | zero => exact respects_throw trivial
  | succ turns ih =>
    apply respects_bind respects_get
    rintro ⟨cursor, store⟩ _
    dsimp only
    split
    · exact respects_pure (Schema.admits_none _)
    · apply respects_bind (respects_fetch (file.page cursor.page.toNat))
      rintro frame ⟨other, isRegistered, owns⟩
      obtain rfl : file = other := Option.some.inj (registered.symm.trans isRegistered)
      split
      · next slot row found =>
        refine respects_bind (respects_modifyOwn fun _ typed => typed) ?_
        have types := congrArg Schema.types owns.schema_eq
        exact fun _ _ => respects_pure
          (Schema.admits_some (fits_of_nextRow owns.formed types found))
      · exact respects_bind (respects_modifyOwn fun _ typed => typed) fun _ _ => ih

theorem safe_hasNext (registered : catalog.file? file.table = some file) :
    Safe (μ := μ) catalog (Typed file) (fun _ => True) (hasNext file) := by
  have answers : Safe (μ := μ) catalog (Typed file) (fun _ => True)
      (do pure (← Beside.own).found.isSome) :=
    respects_bind respects_own fun _ _ => respects_pure trivial
  apply respects_bind safe_checkOpen
  intro _ _
  apply respects_bind respects_get
  rintro ⟨cursor, store⟩ _
  dsimp only
  split
  · apply respects_bind (safe_search registered _)
    intro found fits
    exact respects_bind (respects_modifyOwn fun _ _ => fits) fun _ _ => answers
  · exact answers

theorem safe_next (registered : catalog.file? file.table = some file) :
    Safe (μ := μ) catalog (Typed file) (fun row => row.Fits file.schema) (next file) :=
  respects_iff.mpr
    (sustains_next (fun _ _ => trivial) (respects_iff.mp (safe_hasNext registered)))

end Cursor

namespace Stage

variable {α γ : Type} {catalog : Catalog} {holds : α → Prop} {schema : Schema}

theorem respects_onInner {excused : α → Prop} {good : γ → Prop} {action : Action (α × Store μ) γ}
    (respects : Respects catalog holds excused good action) :
    Respects catalog (Typed holds schema) (fun stage => excused stage.inner) good
      (onInner action) :=
  respects_iff.mpr (sustains_onInner (fun _ _ _ excuse => excuse) (respects_iff.mp respects))

theorem safe_onInner {good : γ → Prop} {action : Action (α × Store μ) γ}
    (safe : Safe catalog holds good action) :
    Safe catalog (Typed holds schema) good (onInner action) :=
  respects_onInner safe

/-- A stage is started after the node below it has been prepared. -/
theorem respects_start {excused : α → Prop} {prepare : Action (α × Store μ) Unit}
    (prepares : Respects catalog holds excused (fun _ => True) prepare) :
    Respects catalog (Typed holds schema) (fun stage => excused stage.inner) (fun _ => True)
      (onInner prepare >>= fun _ => start) :=
  respects_bind (respects_onInner prepares) fun _ _ =>
    respects_modifyOwn fun _ typed => typed_emptied typed true

/-- A stage is rewound before the node below it goes back. -/
theorem safe_rewind {again : Action (α × Store μ) Unit}
    (goesBack : Safe catalog holds (fun _ => True) again) :
    Safe catalog (Typed holds schema) (fun _ => True) (rewind >>= fun _ => onInner again) := by
  have empties : Safe (μ := μ) catalog (Typed holds schema) (fun _ => True) rewind :=
    respects_iff.mpr (sustains_rewind fun _ _ => trivial)
  exact respects_bind empties fun _ _ => safe_onInner goesBack

variable {produce : Action (α × Store μ) (Option Row)}
  (produces : Safe catalog holds schema.Admits produce)

include produces

theorem safe_hasNext : Safe catalog (Typed holds schema) (fun _ => True) (hasNext produce) :=
  respects_iff.mpr
    (sustains_hasNext (fun _ _ => trivial) (respects_iff.mp (safe_onInner produces)))

theorem safe_next :
    Safe catalog (Typed holds schema) (fun row => row.Fits schema) (next produce) :=
  respects_iff.mpr
    (sustains_next (fun _ _ => trivial) (respects_iff.mp (safe_onInner produces)))

theorem safe_next? : Safe catalog (Typed holds schema) schema.Admits (next? produce) := by
  apply respects_bind (safe_hasNext produces)
  intro more _
  split
  · rw [← bind_pure_comp]
    apply respects_bind (safe_next produces)
    exact fun row fits => respects_pure (Schema.admits_some fits)
  · exact respects_pure (Schema.admits_none _)

theorem safe_firstPassing (test : Row → Except Error Bool) (turns : Nat) :
    Safe catalog (Typed holds schema) schema.Admits (firstPassing produce test turns) := by
  induction turns with
  | zero => exact respects_throw trivial
  | succ turns ih =>
    apply respects_bind (safe_next? produces)
    intro found fits
    split
    · exact respects_pure fits
    · next row =>
      apply respects_bind (respects_ofExcept (test row))
      intro passed _
      split
      · exact respects_pure fits
      · exact ih

/-- Each row that is handed to the body fits, and the body may count on that. -/
theorem respects_forEach {β : Type} {holdsOther excused : β → Prop}
    {apply : Row → Action (β × Store μ) Unit}
    (applies : ∀ row, row.Fits schema →
      Respects catalog holdsOther excused (fun _ => True) (apply row)) (turns : Nat) :
    Respects catalog (Both holdsOther (Typed holds schema)) (fun both => excused both.1)
      (fun _ => True) (forEach produce apply turns) := by
  induction turns with
  | zero => exact respects_throw trivial
  | succ turns ih =>
    refine respects_bind (respects_of_safe (safe_onSecond (safe_next? produces))) ?_
    intro found fits
    split
    · exact respects_pure trivial
    · next row =>
      exact respects_bind (respects_onFirst (applies row (fits row rfl))) fun _ _ => ih

end Stage

end PagedStore
