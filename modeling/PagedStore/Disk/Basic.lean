import PagedStore.Action
import PagedStore.Disk.SparseBytes

/-!
The disk: one flat directory of files, in the order in which they came into being, and the number of
pages read and written through each opening of a file. A write beyond the end of a file fills the gap
with zeros. Main statement: writing to one file changes no other.
-/

namespace PagedStore

structure File where
  name : String
  content : SparseBytes
deriving DecidableEq

structure Traffic where
  reads : Nat
  writes : Nat
deriving DecidableEq, Repr

def Traffic.none : Traffic := ⟨0, 0⟩

structure Disk where
  files : List File
  /-- The traffic of each opening, in the order of opening. -/
  traffic : List Traffic
deriving DecidableEq

namespace Disk

def empty : Disk := ⟨[], []⟩

def held (disk : Disk) (file : Nat) : SparseBytes :=
  ((disk.files[file]?).map File.content).getD (.ofBytes [])

def content (disk : Disk) (file : Nat) : Bytes := (disk.held file).toBytes

def length (disk : Disk) (file : Nat) : Nat := (disk.held file).length

def slice (disk : Disk) (file start count : Nat) : Bytes := (disk.held file).slice start count

def name (disk : Disk) (file : Nat) : String := ((disk.files[file]?).map File.name).getD ""

def alter (disk : Disk) (file : Nat) (change : SparseBytes → SparseBytes) : Disk :=
  { disk with files := disk.files.modify file fun old => { old with content := change old.content } }

def overwrite (disk : Disk) (file start : Nat) (patch : Bytes) : Disk :=
  disk.alter file fun content => content.overwrite start patch

def resize (disk : Disk) (file length : Nat) : Disk := disk.alter file (.resized length)

def trafficOf (disk : Disk) (opening : Nat) : Traffic := disk.traffic[opening]?.getD .none

def countRead (disk : Disk) (opening : Nat) : Disk :=
  { disk with traffic := disk.traffic.modify opening fun t => { t with reads := t.reads + 1 } }

def countWrite (disk : Disk) (opening : Nat) : Disk :=
  { disk with traffic := disk.traffic.modify opening fun t => { t with writes := t.writes + 1 } }

theorem length_eq (disk : Disk) (file : Nat) : disk.length file = (disk.content file).length :=
  (SparseBytes.length_toBytes _).symm

theorem slice_eq (disk : Disk) (file start count : Nat) :
    disk.slice file start count = Bytes.slice (disk.content file) start count :=
  SparseBytes.slice_eq _ start count

theorem content_congr {disk other : Disk} (same : other.files = disk.files) (file : Nat) :
    other.content file = disk.content file := by
  rw [content, content, held, held, same]

theorem content_of_missing {disk : Disk} {file : Nat} (missing : disk.files.length ≤ file) :
    disk.content file = [] := by
  rw [content, held, List.getElem?_eq_none missing]
  rfl

theorem content_overwrite (disk : Disk) (file start : Nat) (patch : Bytes) (other : Nat) :
    (disk.overwrite file start patch).content other =
      if other = file ∧ file < disk.files.length then
        Bytes.overwrite (disk.content file) start patch
      else disk.content other := by
  by_cases same : other = file
  · subst same
    by_cases there : other < disk.files.length
    · rw [if_pos ⟨rfl, there⟩, content, content, ← SparseBytes.toBytes_overwrite]
      simp [held, overwrite, alter, there]
    · rw [if_neg (fun both => there both.2), content, content]
      simp [held, overwrite, alter, List.getElem?_eq_none (Nat.le_of_not_lt there)]
  · rw [if_neg (fun both => same both.1), content, content]
    simp [held, overwrite, alter, Ne.symm same]

theorem length_files_overwrite (disk : Disk) (file start : Nat) (patch : Bytes) :
    (disk.overwrite file start patch).files.length = disk.files.length :=
  List.length_modify ..

theorem content_overwrite_self (disk : Disk) {file : Nat} (exists_file : file < disk.files.length)
    (start : Nat) (patch : Bytes) :
    (disk.overwrite file start patch).content file =
      Bytes.overwrite (disk.content file) start patch := by
  rw [content_overwrite, if_pos ⟨rfl, exists_file⟩]

theorem content_overwrite_other (disk : Disk) {file other : Nat} (differs : other ≠ file)
    (start : Nat) (patch : Bytes) :
    (disk.overwrite file start patch).content other = disk.content other := by
  rw [content_overwrite, if_neg (fun both => differs both.1)]

end Disk

end PagedStore
