import PagedStore.Proofs.Pool.Requests

/-!
Two stores that run alike. A view replaces the memory of the policy and the order in which pages are
listed and leaves everything else. One store echoes the other if every action done on the view of a
store gives the view of what it gives on the store itself, with the same answer. Building actions up
keeps this, so it holds of all requests as soon as it holds where the policy is asked and where the
listing is walked.
-/

namespace PagedStore

/-- A way of looking at a pool with another policy or another listing. -/
structure View (μ ν : Type) where
  memory : μ → ν
  listing : Listing → Listing

variable {μ ν α β : Type}

def Pool.seen (view : View μ ν) (pool : Pool μ) : Pool ν where
  capacity := pool.capacity
  memory := view.memory pool.memory
  listing := view.listing pool.listing
  turn := pool.turn
  frames := pool.frames
  issued := pool.issued
  detached := pool.detached

def Store.seen (view : View μ ν) (store : Store μ) : Store ν where
  disk := store.disk
  catalog := store.catalog
  pool := store.pool.seen view

/-- The action on the view of a store gives the view of what the other action gives on the store. -/
def Echoes (view : View μ ν) (action : Action (Store μ) α) (echo : Action (Store ν) α)
    (store : Store μ) : Prop :=
  echo (store.seen view) = match action store with
    | .ok value after => .ok value (after.seen view)
    | .error fault after => .error fault (after.seen view)

section Rules

variable {view : View μ ν} {store : Store μ}

theorem outcome_of_echoes {action : Action (Store μ) α} {echo : Action (Store ν) α}
    (echoes : Echoes view action echo store) :
    Action.outcome echo (store.seen view) =
      ((Action.outcome action store).1, (Action.outcome action store).2.seen view) := by
  rw [Action.outcome, Action.outcome, echoes]
  cases action store <;> rfl

theorem frame_seen (id : PageId) : (store.seen view).pool.frame? id = store.pool.frame? id := rfl

theorem echoes_pure (value : α) : Echoes view (pure value) (pure value) store := rfl

theorem echoes_fail (cause : Error) :
    Echoes (α := α) view (Action.fail cause) (Action.fail cause) store := rfl

theorem echoes_ofExcept (outcome : Except Error α) :
    Echoes view (Action.ofExcept outcome) (Action.ofExcept outcome) store := by
  cases outcome <;> rfl

theorem echoes_get {next : Store μ → Action (Store μ) α} {echo : Store ν → Action (Store ν) α}
    (echoes : Echoes view (next store) (echo (store.seen view)) store) :
    Echoes view (get >>= next) (get >>= echo) store :=
  echoes

theorem echoes_modify {change : Pool μ → Pool μ} {echo : Pool ν → Pool ν}
    (commutes : echo (store.pool.seen view) = (change store.pool).seen view) :
    Echoes view (Store.modifyPool change) (Store.modifyPool echo) store := by
  have same : ({ store.seen view with pool := echo (store.pool.seen view) } : Store ν) =
      Store.seen view { store with pool := change store.pool } := by
    rw [commutes]
    rfl
  exact congrArg (EStateM.Result.ok ()) same

theorem echoes_onDisk (action : Action Disk α) :
    Echoes view (Store.onDisk action) (Store.onDisk action) store := by
  have same : (store.seen view).disk = store.disk := rfl
  rw [Echoes, Store.onDisk, Store.onDisk, Action.within, Action.within, same]
  cases action store.disk <;> rfl

/-- What follows an action has to echo only in the states in which the action ends. -/
theorem echoes_bind {action : Action (Store μ) α} {echo : Action (Store ν) α}
    {next : α → Action (Store μ) β} {nextEcho : α → Action (Store ν) β}
    {done : α → Store μ → Prop} {failed : Fault → Store μ → Prop}
    (first : Echoes view action echo store) (ends : Action.Ends action store done failed)
    (later : ∀ value after, done value after → Echoes view (next value) (nextEcho value) after) :
    Echoes view (action >>= next) (echo >>= nextEcho) store := by
  rw [Echoes, Action.bind_apply, Action.bind_apply, first]
  unfold Action.Ends at ends
  cases ended : action store with
  | ok value after =>
    rw [ended] at ends
    exact later value after ends
  | error fault after => rfl

/-- What follows an action echoes in every state. -/
theorem echoes_then {action : Action (Store μ) α} {echo : Action (Store ν) α}
    {next : α → Action (Store μ) β} {nextEcho : α → Action (Store ν) β}
    (first : Echoes view action echo store)
    (later : ∀ value after, Echoes view (next value) (nextEcho value) after) :
    Echoes view (action >>= next) (echo >>= nextEcho) store := by
  rw [Echoes, Action.bind_apply, Action.bind_apply, first]
  cases action store with
  | ok value after => exact later value after
  | error fault after => rfl

theorem echoes_map {action : Action (Store μ) α} {echo : Action (Store ν) α} (change : α → β)
    (first : Echoes view action echo store) :
    Echoes view (change <$> action) (change <$> echo) store := by
  rw [← bind_pure_comp, ← bind_pure_comp]
  exact echoes_then first fun value _ => echoes_pure (change value)

theorem echoes_attempt {action : Action (Store μ) Unit} {echo : Action (Store ν) Unit}
    (first : Echoes view action echo store) :
    Echoes view (Action.attempt action) (Action.attempt echo) store := by
  rw [Echoes, Action.attempt, Action.attempt, first]
  cases action store <;> rfl

theorem echoes_forM {action : PageId → Action (Store μ) Unit} {echo : PageId → Action (Store ν) Unit}
    (each : ∀ id store, Echoes view (action id) (echo id) store) (ids : List PageId)
    (store : Store μ) : Echoes view (ids.forM action) (ids.forM echo) store := by
  simp only [List.forM_eq_forM]
  induction ids generalizing store with
  | nil => rfl
  | cons id rest ih =>
    rw [List.forM_cons, List.forM_cons]
    exact echoes_then (each id store) fun _ after => ih after

end Rules

namespace Store

variable {view : View μ ν}

theorem echoes_file {store : Store μ} {next : HeapFile → Action (Store μ) α} {echo : HeapFile → Action (Store ν) α}
    (table : TableId)
    (later : ∀ file, store.catalog.file? table = some file → Echoes view (next file) (echo file) store) :
    Echoes view (Action.ofExcept (store.catalog.file table) >>= next)
      (Action.ofExcept (store.catalog.file table) >>= echo) store := by
  cases registered : store.catalog.file? table with
  | none =>
    rw [Catalog.file_of_none registered]
    rfl
  | some file =>
    rw [Catalog.file_of_some registered]
    exact later file registered

theorem echoes_writeBack (id : PageId) (store : Store μ) :
    Echoes view (writeBack id) (writeBack id) store := by
  unfold writeBack
  apply echoes_get
  rw [frame_seen]
  cases store.pool.frame? id with
  | none => exact echoes_pure _
  | some frame =>
    dsimp only
    split
    · apply echoes_then (echoes_ofExcept _)
      intro file middle
      apply echoes_then (echoes_onDisk _)
      exact fun _ last => echoes_modify rfl
    · exact echoes_pure _

/-- One step of a flush for a transaction. -/
theorem echoes_writeBackOf (transaction : Transaction) (id : PageId) (store : Store μ) :
    Echoes view (do if dirtiedBy? (← get) id = some transaction then writeBack id)
      (do if dirtiedBy? (← get) id = some transaction then writeBack id) store := by
  apply echoes_get
  change Echoes view _ (if dirtiedBy? store id = some transaction then _ else _) store
  split
  · exact echoes_writeBack id store
  · exact echoes_pure _

theorem echoes_flushPage (id : PageId) (store : Store μ) :
    Echoes view (flushPage id) (flushPage id) store := by
  unfold flushPage
  apply echoes_get
  apply echoes_then (echoes_writeBack id store)
  exact fun _ _ => echoes_pure _

theorem echoes_replacePage (frame : Frame) (page : Page) (store : Store μ) :
    Echoes view (replacePage frame page) (replacePage frame page) store := by
  unfold replacePage
  exact echoes_then (echoes_modify rfl) fun _ _ => echoes_pure _

theorem echoes_storeOn (frame : Frame) (row : Row) (store : Store μ) :
    Echoes view (storeOn frame row) (storeOn frame row) store := by
  unfold storeOn
  exact echoes_then (echoes_ofExcept _) fun placed middle => echoes_replacePage frame placed.2 middle

variable [EvictionPolicy μ] [EvictionPolicy ν]

/-- A view under which the policy says the same and means the same pages, as long as the store is as
it should be. -/
structure Faithful (view : View μ ν) (P : Store μ → Prop) : Prop where
  closed : Closed P
  access : ∀ memory id, EvictionPolicy.access (view.memory memory) id =
    view.memory (EvictionPolicy.access memory id)
  forget : ∀ memory id, EvictionPolicy.forget (view.memory memory) id =
    view.memory (EvictionPolicy.forget memory id)
  asks : ∀ store, Tidy store → P store → (store.pool.seen view).askVictim =
    (store.pool.askVictim.1, store.pool.askVictim.2.seen view)
  flushesAll : ∀ store, Tidy store → P store → Echoes view flushAll flushAll store
  flushes : ∀ transaction store, Tidy store → P store →
    Echoes view (flushTransaction transaction) (flushTransaction transaction) store

variable {P : Store μ → Prop} {store : Store μ}

theorem seen_noteAccess (faithful : Faithful view P) (pool : Pool μ) (id : PageId) :
    (pool.seen view).noteAccess id = (pool.noteAccess id).seen view := by
  rw [Pool.noteAccess, Pool.noteAccess, Pool.seen, Pool.seen]
  dsimp only
  rw [faithful.access]

theorem seen_noteRemoval (faithful : Faithful view P) (pool : Pool μ) (id : PageId) :
    (pool.seen view).noteRemoval id = (pool.noteRemoval id).seen view := by
  rw [Pool.noteRemoval, Pool.noteRemoval, Pool.seen, Pool.seen]
  dsimp only
  rw [faithful.forget]

theorem echoes_evict (faithful : Faithful view P) (tidy : store.Tidy) (holds : P store) :
    Echoes view evict evict store := by
  have asks := faithful.asks store tidy holds
  unfold evict
  apply echoes_get
  have asks : (store.seen view).pool.askVictim = _ := asks
  dsimp only
  rw [asks]
  dsimp only
  have put : Echoes view (set { store with pool := store.pool.askVictim.2 })
    (set ({ store.seen view with pool := store.pool.askVictim.2.seen view } : Store ν)) store := rfl
  apply echoes_then put
  intro _ asked
  cases store.pool.askVictim.1 with
  | none => exact echoes_fail _
  | some id =>
    apply echoes_then (echoes_attempt (echoes_writeBack id asked))
    exact fun _ last => echoes_modify (seen_noteRemoval faithful (last.pool.drop id) id)

theorem echoes_discard (faithful : Faithful view P) (id : PageId) (store : Store μ) :
    Echoes view (discard id) (discard id) store := by
  unfold discard
  apply echoes_get
  change Echoes view _ (if (store.pool.frame? id).isSome = true then _ else _) store
  split
  · exact echoes_modify (seen_noteRemoval faithful (store.pool.drop id) id)
  · exact echoes_pure _

theorem echoes_bringIn (faithful : Faithful view P) (tidy : store.Tidy) (holds : P store)
    (id : PageId) (page : Page) : Echoes view (bringIn id page) (bringIn id page) store := by
  have placed : ∀ now : Store μ, Echoes view
      (do
        let frame := (← get).pool.nextFrame page
        modifyPool fun pool => (pool.place id page).noteAccess id
        pure frame)
      (do
        let frame := (← get).pool.nextFrame page
        modifyPool fun pool => (pool.place id page).noteAccess id
        pure frame) now := by
    intro now
    apply echoes_get
    apply echoes_then (echoes_modify (seen_noteAccess faithful (now.pool.place id page) id))
    exact fun _ _ => echoes_pure _
  unfold bringIn
  apply echoes_get
  change Echoes view _ (if store.pool.isFull = true then _ else _) store
  split
  · exact echoes_then (echoes_evict faithful tidy holds) fun _ middle => placed middle
  · exact placed store

theorem echoes_fetch (faithful : Faithful view P) (tidy : store.Tidy) (holds : P store)
    (id : PageId) : Echoes view (fetch id) (fetch id) store := by
  unfold fetch
  apply echoes_get
  rw [frame_seen]
  cases store.pool.frame? id with
  | some frame =>
    apply echoes_then (echoes_modify (seen_noteAccess faithful store.pool id))
    exact fun _ _ => echoes_pure _
  | none =>
    dsimp only
    have sameState : Action.Ends (Action.ofExcept (store.catalog.file id.table)) store
        (fun _ after => after = store) fun _ _ => True := by
      rw [Action.ends_ofExcept]
      cases store.catalog.file id.table <;> trivial
    apply echoes_bind (echoes_ofExcept _) sameState
    intro file now same
    subst now
    have read : Action.Ends (onDisk (file.readPage id)) store
        (fun _ after => after = { store with disk := store.disk.countRead file.opening })
        (fun _ _ => True) := by
      rw [onDisk, Action.ends_within]
      apply Action.ends_imp (readPage_reads file id store.disk)
      · rintro page _ ⟨-, -, -, rfl⟩
        rfl
      · exact fun _ _ _ => trivial
    apply echoes_bind (echoes_onDisk _) read
    intro page now same
    subst now
    have motion : Motion store { store with disk := store.disk.countRead file.opening } :=
      .shift (.read store file.opening)
    exact echoes_bringIn faithful (tidy_of_motion motion tidy) (faithful.closed.motion motion holds)
      id page

theorem holds_of_moved (faithful : Faithful view P) {after : Store μ} (moved : Moved store after)
    (holds : P store) : P after :=
  keeps_of_moved (fun _ _ => faithful.closed.motion) moved holds

theorem echoes_storeOnFirst (faithful : Faithful view P) (tidy : store.Tidy) (holds : P store)
    (row : Row) (ids : List PageId) :
    Echoes view (storeOnFirst row ids) (storeOnFirst row ids) store := by
  induction ids generalizing store with
  | nil => exact echoes_pure _
  | cons id rest ih =>
    rw [storeOnFirst, storeOnFirst]
    apply echoes_bind (echoes_fetch faithful tidy holds id) (fetch_moves store id)
    rintro frame middle ⟨moved, -⟩
    split
    · exact ih (tidy_of_moved moved tidy) (holds_of_moved faithful moved holds)
    · exact echoes_map _ (echoes_storeOn frame row middle)

theorem echoes_storeIn (faithful : Faithful view P) (tidy : store.Tidy) (holds : P store)
    {table : TableId} {file : HeapFile} (registered : store.catalog.file? table = some file)
    (row : Row) : Echoes view (storeIn file row) (storeIn file row) store := by
  have stays : Action.Ends (Action.ofExcept (row.checkAgainst file.schema)) store
      (fun _ after => after = store) fun _ _ => True := by
    rw [Action.ends_ofExcept]
    cases row.checkAgainst file.schema <;> trivial
  unfold storeIn
  apply echoes_bind (echoes_ofExcept _) stays
  intro _ now same
  subst now
  apply echoes_get
  dsimp only
  split
  · rfl
  · apply echoes_bind (echoes_storeOnFirst faithful tidy holds row _)
      (storeOnFirst_moves tidy row _)
    intro stored middle ends
    cases stored with
    | some frame => exact echoes_pure _
    | none =>
      have now : middle.catalog.file? table = some file := by
        rw [catalog_of_moved ends, registered]
      have appends : Action.Ends (onDisk file.appendPage) middle
          (fun _ after => Moved store after) fun _ _ => True := by
        rw [onDisk, Action.ends_within]
        apply Action.ends_of_never_fails (appendPage_appends file middle.disk)
        rintro number _ ⟨-, rfl⟩
        exact ends.tail (.grow now)
      apply echoes_bind (echoes_onDisk _) appends
      intro number grown moved
      apply echoes_then (echoes_fetch faithful (tidy_of_moved moved tidy)
        (holds_of_moved faithful moved holds) (file.page number.toNat))
      exact fun frame last => echoes_storeOn frame row last

theorem echoes_deleteIn (faithful : Faithful view P) (tidy : store.Tidy) (holds : P store)
    (file : HeapFile) (row : Row) : Echoes view (deleteIn file row) (deleteIn file row) store := by
  unfold deleteIn
  cases row.record with
  | none => exact echoes_fail _
  | some record =>
    dsimp only
    split
    · rfl
    · apply echoes_then (echoes_fetch faithful tidy holds record.page)
      intro frame middle
      apply echoes_then (echoes_ofExcept _)
      exact fun page last => echoes_replacePage frame page last

theorem echoes_settle (faithful : Faithful view P) (transaction : Transaction) (frame : Frame)
    (store : Store μ) : Echoes view (settle transaction frame) (settle transaction frame) store := by
  unfold settle
  dsimp only
  apply echoes_then (echoes_modify (seen_noteAccess faithful (store.pool.alter frame.page.id
    fun page => page.marked (some transaction)) frame.page.id))
  exact fun _ _ => echoes_pure _

theorem echoes_insert (faithful : Faithful view P) (tidy : store.Tidy) (holds : P store)
    (transaction : Transaction) (table : TableId) (row : Row) :
    Echoes view (insert transaction table row) (insert transaction table row) store := by
  unfold insert
  apply echoes_get
  apply echoes_file table
  intro file registered
  apply echoes_then (echoes_storeIn faithful tidy holds registered row)
  exact fun frame last => echoes_settle faithful transaction frame last

theorem echoes_delete (faithful : Faithful view P) (tidy : store.Tidy) (holds : P store)
    (transaction : Transaction) (row : Row) :
    Echoes view (delete transaction row) (delete transaction row) store := by
  unfold delete
  cases row.record with
  | none => exact echoes_fail _
  | some record =>
    apply echoes_get
    apply echoes_file record.page.table
    intro file registered
    apply echoes_then (echoes_deleteIn faithful tidy holds file row)
    exact fun frame last => echoes_settle faithful transaction frame last

/-- Under a faithful view every request gives the same answer. -/
theorem echoes_perform (faithful : Faithful view P) (tidy : store.Tidy) (holds : P store)
    (operation : Operation) : Echoes view (perform operation) (perform operation) store := by
  cases operation with
  | fetch id => exact echoes_then (echoes_fetch faithful tidy holds id) fun _ _ => echoes_pure _
  | insert transaction table row =>
    exact echoes_then (echoes_insert faithful tidy holds transaction table row)
      fun _ _ => echoes_pure _
  | delete transaction row =>
    exact echoes_then (echoes_delete faithful tidy holds transaction row) fun _ _ => echoes_pure _
  | evict => exact echoes_then (echoes_evict faithful tidy holds) fun _ _ => echoes_pure _
  | flushPage id => exact echoes_then (echoes_flushPage id store) fun _ _ => echoes_pure _
  | flushTransaction transaction =>
    exact echoes_then (faithful.flushes transaction store tidy holds) fun _ _ => echoes_pure _
  | flushAll => exact echoes_then (faithful.flushesAll store tidy holds) fun _ _ => echoes_pure _
  | discard id => exact echoes_then (echoes_discard faithful id store) fun _ _ => echoes_pure _

/-- Runs of requests cannot tell a store from its view. -/
theorem after_seen (faithful : Faithful view P) (tidy : store.Tidy) (holds : P store)
    (operations : List Operation) :
    (store.seen view).after operations = (store.after operations).seen view := by
  induction operations generalizing store with
  | nil => rfl
  | cons operation rest ih =>
    have same := outcome_of_echoes (echoes_perform faithful tidy holds operation)
    have did := did_outcome tidy operation
    have later := ih (keeps_of_did closed_tidy did tidy) (keeps_of_did faithful.closed did holds)
    have next : ((store.seen view).outcome operation).2 = (store.outcome operation).2.seen view :=
      congrArg Prod.snd same
    change ((store.seen view).outcome operation).2.after rest = _
    rw [next]
    exact later

theorem outcome_seen (faithful : Faithful view P) (tidy : store.Tidy) (holds : P store)
    (operation : Operation) :
    ((store.seen view).outcome operation).1 = (store.outcome operation).1 :=
  congrArg Prod.fst (outcome_of_echoes (echoes_perform faithful tidy holds operation))

end Store

end PagedStore
