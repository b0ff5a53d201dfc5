import PagedStore.Catalog
import PagedStore.Pool

/-!
A store: a disk, the registry of its tables, and a pool of pages in memory. Tables are made by
opening a file and registering it.
-/

namespace PagedStore

structure Store (μ : Type) where
  disk : Disk
  catalog : Catalog
  pool : Pool μ

namespace Store

variable {μ α : Type}

def onDisk (action : Action Disk α) : Action (Store μ) α :=
  Action.within Store.disk (fun disk store => { store with disk }) action

def modifyPool (change : Pool μ → Pool μ) : Action (Store μ) Unit :=
  modify fun store => { store with pool := change store.pool }

def register (file : HeapFile) (name : String) : Action (Store μ) TableId := do
  modify fun store => { store with catalog := store.catalog.add file name }
  pure file.table

def createTable (path : String) (schema : Schema) (size : PageSize) (name : String) :
    Action (Store μ) HeapFile := do
  let file ← onDisk (HeapFile.openAt path schema size)
  let _ ← register file name
  pure file

end Store

end PagedStore
