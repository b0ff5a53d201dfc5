import PagedStore.Store.Beside
import PagedStore.Store.Rows

/-!
Cursors over the rows of a heap file, in the order of pages and then of slots. Between calls a cursor
holds no page, only the place where it goes on and at most one row that it has found but not given
out yet, so it sees what happens to the table ahead of it.
-/

namespace PagedStore

structure Cursor where
  opened : Bool
  page : UInt32
  slot : Nat
  /-- The row that was found and not given out yet. -/
  found : Option Row
deriving DecidableEq

namespace Cursor

def unopened : Cursor := ⟨false, 0, 0, none⟩

def start (_cursor : Cursor) : Cursor := ⟨true, 0, 0, none⟩

def close (cursor : Cursor) : Cursor := { cursor with opened := false, found := none }

variable {μ : Type}

def checkOpen : Action (Cursor × Store μ) Unit := do
  unless (← Beside.own).opened do Action.fail (.notOpen .cursor)

def rewind : Action (Cursor × Store μ) Unit := do
  checkOpen
  Beside.modifyOwn start

variable [EvictionPolicy μ]

/-- Looks for the next row on at most `turns` pages. The file is asked for the number of its pages
before each of them. -/
def search (file : HeapFile) : Nat → Action (Cursor × Store μ) (Option Row)
  | 0 => throw .outOfSteps
  | turns + 1 => do
      let (cursor, store) ← get
      if file.numPages store.disk ≤ cursor.page then pure none
      else
        let frame ← Beside.onStore (Store.fetch (file.page cursor.page.toNat))
        match frame.page.nextRow? cursor.slot with
        | some (slot, row) =>
            Beside.modifyOwn fun cursor => { cursor with slot := slot + 1 }
            pure (some row)
        | none =>
            Beside.modifyOwn fun cursor => { cursor with page := cursor.page + 1, slot := 0 }
            search file turns

def hasNext (file : HeapFile) : Action (Cursor × Store μ) Bool := do
  checkOpen
  if (← Beside.own).found.isNone then
    let found ← search file 4294967296
    Beside.modifyOwn fun cursor => { cursor with found := found }
  pure (← Beside.own).found.isSome

def next (file : HeapFile) : Action (Cursor × Store μ) Row := do
  let _ ← hasNext file
  match (← Beside.own).found with
  | none => Action.fail .exhausted
  | some row =>
      Beside.modifyOwn fun cursor => { cursor with found := none }
      pure row

end Cursor

end PagedStore
