import PagedStore.Store.Cache

/-!
Storing and deleting rows. A row goes to the first free slot of the first page that has one, and the
file grows by a page only if there is none. The pages of the table are looked at through the pool.
-/

namespace PagedStore.Store

variable {μ : Type}

/-- No locks are taken, so no transaction holds one on any page. -/
def holdsLock (_store : Store μ) (_transaction : Transaction) (_id : PageId) : Bool := false

def replacePage (frame : Frame) (page : Page) : Action (Store μ) Frame := do
  modifyPool fun pool => pool.alter page.id fun _ => page
  pure (frame.altered fun _ => page)

def storeOn (frame : Frame) (row : Row) : Action (Store μ) Frame := do
  let (_, page) ← Action.ofExcept (frame.page.insert row)
  replacePage frame page

variable [EvictionPolicy μ]

def storeOnFirst (row : Row) : List PageId → Action (Store μ) (Option Frame)
  | [] => pure none
  | id :: rest => do
      let frame ← fetch id
      if frame.page.freeCount = 0 then storeOnFirst row rest
      else some <$> storeOn frame row

/-- Stores a row in a file, behind its last page if all pages are full. The page does not count as
changed by anyone yet. -/
def storeIn (file : HeapFile) (row : Row) : Action (Store μ) Frame := do
  Action.ofExcept (row.checkAgainst file.schema)
  let count := (file.numPages (← get).disk).toNat
  if file.slotCount = 0 then Action.fail (.pageFull (file.page count))
  match ← storeOnFirst row ((List.range count).map file.page) with
  | some frame => pure frame
  | none =>
      let number ← onDisk file.appendPage
      let frame ← fetch (file.page number.toNat)
      storeOn frame row

def deleteIn (file : HeapFile) (row : Row) : Action (Store μ) Frame := do
  match row.record with
  | none => Action.fail .missingRecordId
  | some record =>
      if record.page.table ≠ file.table then Action.fail (.notOnPage record)
      let frame ← fetch record.page
      let page ← Action.ofExcept (frame.page.delete row)
      replacePage frame page

/-- Marks a fetched page as changed by the transaction, which counts as one more access. -/
def settle (transaction : Transaction) (frame : Frame) : Action (Store μ) Frame := do
  let id := frame.page.id
  let mark (page : Page) : Page := page.marked (some transaction)
  modifyPool fun pool => (pool.alter id mark).noteAccess id
  pure (frame.altered mark)

def insert (transaction : Transaction) (table : TableId) (row : Row) : Action (Store μ) Frame := do
  let file ← Action.ofExcept ((← get).catalog.file table)
  settle transaction (← storeIn file row)

def delete (transaction : Transaction) (row : Row) : Action (Store μ) Frame := do
  match row.record with
  | none => Action.fail .missingRecordId
  | some record =>
      let file ← Action.ofExcept ((← get).catalog.file record.page.table)
      settle transaction (← deleteIn file row)

end PagedStore.Store
