import PagedStore.Store.Basic

/-!
Moving pages between the disk and the pool. A page is read when somebody asks for it and it is not in
memory; if the pool is full by then, the policy names a page that leaves first. Changed pages are
written back when they leave or when a flush asks for it.
-/

namespace PagedStore.Store

variable {μ : Type}

/-- Writes a cached page to its file if it has changed, and marks it clean. The file is the one that
is registered for the table now. -/
def writeBack (id : PageId) : Action (Store μ) Unit := do
  let store ← get
  match store.pool.frame? id with
  | none => pure ()
  | some frame =>
      if frame.page.isDirty then
        let file ← Action.ofExcept (store.catalog.file frame.page.id.table)
        onDisk (file.writePage frame.page)
        modifyPool fun pool => pool.alter id fun page => page.marked none

def listPages : Action (Store μ) (List PageId) := do
  let pages := (← get).pool.listed
  modifyPool Pool.afterListing
  pure pages

def flushPage (id : PageId) : Action (Store μ) Bool := do
  let cached := ((← get).pool.frame? id).isSome
  writeBack id
  pure cached

/-- Writes back every cached page, up to the first that fails. -/
def flushAll : Action (Store μ) Unit := do
  (← listPages).forM writeBack

def dirtiedBy? (store : Store μ) (id : PageId) : Option Transaction :=
  (store.pool.frame? id).bind fun frame => frame.page.dirtiedBy

/-- Writes back the cached pages that the transaction was the last to change, up to the first that
fails. -/
def flushTransaction (transaction : Transaction) : Action (Store μ) Unit := do
  (← listPages).forM fun id => do
    if dirtiedBy? (← get) id = some transaction then writeBack id

variable [EvictionPolicy μ]

/-- Lets the page go that the policy names, after writing it back. The page is let go even if writing
it back fails, and the policy is told so even if the page was not cached. -/
def evict : Action (Store μ) Unit := do
  let store ← get
  let (answer, pool) := store.pool.askVictim
  set { store with pool }
  match answer with
  | none => Action.fail .outOfPages
  | some id =>
      Action.attempt (writeBack id)
      modifyPool fun pool => (pool.drop id).noteRemoval id

def discard (id : PageId) : Action (Store μ) Unit := do
  if ((← get).pool.frame? id).isSome then
    modifyPool fun pool => (pool.drop id).noteRemoval id

def bringIn (id : PageId) (page : Page) : Action (Store μ) Frame := do
  if (← get).pool.isFull then evict
  let frame := (← get).pool.nextFrame page
  modifyPool fun pool => (pool.place id page).noteAccess id
  pure frame

/-- The copy of a page in memory, read from the disk if there is none yet. -/
def fetch (id : PageId) : Action (Store μ) Frame := do
  let store ← get
  match store.pool.frame? id with
  | some frame =>
      modifyPool fun pool => pool.noteAccess id
      pure frame
  | none =>
      let file ← Action.ofExcept (store.catalog.file id.table)
      let page ← onDisk (file.readPage id)
      bringIn id page

end PagedStore.Store
