import PagedStore.Disk.Path
import PagedStore.Page.Image

/-!
Heap files: the pages of one table, back to back in one file. Page `k` takes the `k`-th stretch of as
many bytes as a page has. A heap file is an opening of a file together with the layout that its user
expects; reads and writes go straight to the disk and are counted for the opening.
-/

namespace PagedStore

@[ext]
structure PageSize where
  bytes : Nat
  pos : 0 < bytes

instance : DecidableEq PageSize := fun _ _ => decidable_of_iff _ PageSize.ext_iff.symm

instance (bytes : Nat) : OfNat PageSize (bytes + 1) := ⟨⟨bytes + 1, Nat.succ_pos bytes⟩⟩

structure HeapFile where
  /-- The opening under which the disk counts reads and writes. -/
  opening : Nat
  file : Nat
  schema : Schema
  size : PageSize
deriving DecidableEq

namespace HeapFile

def openAt (path : String) (schema : Schema) (size : PageSize) : Action Disk HeapFile := do
  let (file, opening) ← Disk.openFile path
  pure { opening, file, schema, size }

def pageSize (heap : HeapFile) : Nat := heap.size.bytes

theorem size_pos (heap : HeapFile) : 0 < heap.pageSize := heap.size.pos

/-- All openings of one file belong to one table. -/
def table (heap : HeapFile) : TableId := .file heap.file

/-- The page with a number, of which the lowest 32 bits are kept. -/
def page (heap : HeapFile) (number : Nat) : PageId := ⟨heap.table, UInt32.ofNat number⟩

theorem number_page (heap : HeapFile) {number : Nat} (small : number < 4294967296) :
    (heap.page number).number = number := by
  rw [PageId.number, page, UInt32.toNat_ofNat']
  exact Nat.mod_eq_of_lt small

theorem page_mod (heap : HeapFile) (number : Nat) : heap.page (number % 4294967296) = heap.page number :=
  congrArg (PageId.mk heap.table) (UInt32.toNat_inj.mp (by simp))

theorem page_number {heap : HeapFile} {id : PageId} (own : id.table = heap.table) :
    heap.page id.number = id :=
  PageId.ext_number own.symm (heap.number_page id.number_lt)

theorem page_injective {heap : HeapFile} {number other : Nat} (small : number < 4294967296)
    (otherSmall : other < 4294967296) (same : heap.page number = heap.page other) : number = other := by
  rw [← heap.number_page small, same, heap.number_page otherSmall]

def slotCount (heap : HeapFile) : Nat := Geometry.slotCount heap.pageSize heap.schema.width

/-- How many pages the file reaches over, an incomplete last one included. -/
def extent (heap : HeapFile) (disk : Disk) : Nat :=
  (disk.length heap.file + heap.pageSize - 1) / heap.pageSize

/-- The number of pages that the file tells, which is its extent cut to 32 bits. -/
def numPages (heap : HeapFile) (disk : Disk) : UInt32 := UInt32.ofNat (heap.extent disk)

/-- Reads a page of the file. A page that is not there in full is past the end of the file. -/
def readPage (heap : HeapFile) (id : PageId) : Action Disk Page := do
  if id.table ≠ heap.table then Action.fail (.tableNotFound id.table)
  let disk ← get
  let image := disk.slice heap.file (id.offset heap.pageSize) heap.pageSize
  if image.length < heap.pageSize then Action.fail (.io .unexpectedEof)
  set (disk.countRead heap.opening)
  Action.ofExcept (Page.decode id heap.schema image)

def writePage (heap : HeapFile) (page : Page) : Action Disk Unit := do
  let image := page.encode
  if image.length ≠ heap.pageSize then
    Action.fail (.wrongPageSize heap.pageSize image.length)
  modify fun disk =>
    (disk.overwrite heap.file (page.id.offset heap.pageSize) image).countWrite heap.opening

/-- Puts a page without rows behind the pages that the file tells of, and tells its number. A file of
2^32 pages or more tells of fewer, so in such a file the page takes the place of another one. -/
def appendPage (heap : HeapFile) : Action Disk UInt32 := do
  let disk ← get
  let number := heap.numPages disk
  let image := Bytes.zeros heap.pageSize
  set ((disk.overwrite heap.file (number.toNat * heap.pageSize) image).countWrite heap.opening)
  pure number

end HeapFile

end PagedStore
