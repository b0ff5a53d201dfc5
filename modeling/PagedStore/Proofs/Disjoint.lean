import Mathlib.Data.List.Basic
import PagedStore.Proofs.WholeFile

/-!
Writes that do not meet. A write over the bytes of a file changes the bytes under it and no others, it
never makes the file shorter, and two writes inside the file that do not overlap can be made in either
order. The same is then said of the disk and of the pages of a heap file.
-/

namespace PagedStore

namespace Bytes

theorem getElem?_overwrite_inside (data patch : Bytes) (start : Nat) {index : Nat}
    (inside : index < patch.length) :
    (overwrite data start patch)[start + index]? = patch[index]? := by
  have proper : ¬ patch.isEmpty = true := by
    intro empty
    rw [List.isEmpty_iff.mp empty] at inside
    exact absurd inside (Nat.not_lt_zero _)
  have front : (padded start (data.take start)).length = start :=
    length_padded (List.length_take_le _ _)
  rw [overwrite, if_neg proper, List.append_assoc, List.getElem?_append, front,
    if_neg (by omega), Nat.add_sub_cancel_left, List.getElem?_append, if_pos inside]

theorem getElem?_overwrite_outside (data patch : Bytes) {start index : Nat}
    (known : index < data.length) (outside : index < start ∨ start + patch.length ≤ index) :
    (overwrite data start patch)[index]? = data[index]? := by
  by_cases proper : patch.isEmpty = true
  · rw [overwrite, if_pos proper]
  have front : (padded start (data.take start)).length = start :=
    length_padded (List.length_take_le _ _)
  rw [overwrite, if_neg proper, List.append_assoc, List.getElem?_append, front]
  rcases outside with before | after
  · have kept : index < (data.take start).length := by
      rw [List.length_take]
      omega
    rw [if_pos before, padded, List.getElem?_append, if_pos kept, List.getElem?_take,
      if_pos before]
  · rw [if_neg (by omega), List.getElem?_append, if_neg (by omega), List.getElem?_drop]
    congr 1
    omega

theorem length_le_overwrite (data patch : Bytes) (start : Nat) :
    data.length ≤ (overwrite data start patch).length := by
  by_cases proper : patch = []
  · rw [proper]
    exact Nat.le_refl _
  · rw [length_overwrite data start proper]
    exact Nat.le_max_left _ _

theorem length_overwrite_within {data patch : Bytes} {start : Nat}
    (within : start + patch.length ≤ data.length) :
    (overwrite data start patch).length = data.length := by
  by_cases proper : patch = []
  · rw [proper]
    rfl
  · rw [length_overwrite data start proper, Nat.max_eq_left within]

theorem slice_overwrite_apart {data patch : Bytes} {start first count : Nat}
    (known : first + count ≤ data.length)
    (apart : first + count ≤ start ∨ start + patch.length ≤ first) :
    slice (overwrite data start patch) first count = slice data first count := by
  apply List.ext_getElem?
  intro index
  rw [slice, slice, List.getElem?_take, List.getElem?_take, List.getElem?_drop, List.getElem?_drop]
  split
  · exact getElem?_overwrite_outside data patch (by omega) (by omega)
  · rfl

theorem overwrite_comm {data left right : Bytes} {first second : Nat}
    (leftWithin : first + left.length ≤ data.length)
    (rightWithin : second + right.length ≤ data.length)
    (apart : first + left.length ≤ second ∨ second + right.length ≤ first) :
    overwrite (overwrite data first left) second right =
      overwrite (overwrite data second right) first left := by
  have lengthLeft := length_overwrite_within leftWithin
  have lengthRight := length_overwrite_within rightWithin
  apply List.ext_getElem?
  intro index
  by_cases known : index < data.length
  · by_cases inLeft : first ≤ index ∧ index < first + left.length
    · obtain ⟨offset, rfl⟩ := Nat.exists_eq_add_of_le inLeft.1
      rw [getElem?_overwrite_inside _ left first (by omega),
        getElem?_overwrite_outside _ right (by omega) (by omega),
        getElem?_overwrite_inside data left first (by omega)]
    · rw [getElem?_overwrite_outside (overwrite data second right) left (by omega) (by omega)]
      by_cases inRight : second ≤ index ∧ index < second + right.length
      · obtain ⟨offset, rfl⟩ := Nat.exists_eq_add_of_le inRight.1
        rw [getElem?_overwrite_inside _ right second (by omega),
          getElem?_overwrite_inside data right second (by omega)]
      · rw [getElem?_overwrite_outside _ right (by omega) (by omega),
          getElem?_overwrite_outside data right known (by omega),
          getElem?_overwrite_outside data left known (by omega)]
  · have lengthBoth : (overwrite (overwrite data first left) second right).length = data.length :=
      (length_overwrite_within (by omega)).trans lengthLeft
    have lengthSwapped : (overwrite (overwrite data second right) first left).length = data.length :=
      (length_overwrite_within (by omega)).trans lengthRight
    rw [List.getElem?_eq_none (by omega), List.getElem?_eq_none (by omega)]

end Bytes

theorem SparseBytes.overwrite_comm {content : SparseBytes} {left right : Bytes} {first second : Nat}
    (leftWithin : first + left.length ≤ content.toBytes.length)
    (rightWithin : second + right.length ≤ content.toBytes.length)
    (apart : first + left.length ≤ second ∨ second + right.length ≤ first) :
    (content.overwrite first left).overwrite second right =
      (content.overwrite second right).overwrite first left := by
  apply toBytes_injective
  rw [toBytes_overwrite, toBytes_overwrite, toBytes_overwrite, toBytes_overwrite,
    Bytes.overwrite_comm leftWithin rightWithin apart]

namespace Disk

theorem length_content_overwrite (disk : Disk) (file start : Nat) (patch : Bytes) (other : Nat) :
    (disk.content other).length ≤ ((disk.overwrite file start patch).content other).length := by
  rw [content_overwrite]
  split
  · next same =>
    rw [same.1]
    exact Bytes.length_le_overwrite _ _ _
  · exact Nat.le_refl _

theorem countWrite_comm (disk : Disk) (left right : Nat) :
    (disk.countWrite left).countWrite right = (disk.countWrite right).countWrite left := by
  rw [countWrite, countWrite, countWrite, countWrite]
  congr 1
  by_cases same : left = right
  · rw [same]
  · exact List.modify_modify_ne _ _ _ same

theorem overwrite_countWrite (disk : Disk) (opening file start : Nat) (patch : Bytes) :
    (disk.countWrite opening).overwrite file start patch =
      (disk.overwrite file start patch).countWrite opening := rfl

/-- Writes to two files, or to places in one file that do not meet, can be made in either order. -/
theorem overwrite_comm (disk : Disk) {file other first second : Nat} {left right : Bytes}
    (apart : file = other → first + left.length ≤ (disk.content file).length ∧
      second + right.length ≤ (disk.content file).length ∧
      (first + left.length ≤ second ∨ second + right.length ≤ first)) :
    (disk.overwrite file first left).overwrite other second right =
      (disk.overwrite other second right).overwrite file first left := by
  rw [overwrite, overwrite, overwrite, overwrite, alter, alter, alter, alter]
  congr 1
  by_cases same : file = other
  · subst same
    obtain ⟨leftWithin, rightWithin, away⟩ := apart rfl
    rw [List.modify_modify_eq, List.modify_modify_eq]
    apply List.ext_getElem?
    intro index
    rw [List.getElem?_modify, List.getElem?_modify]
    cases found : disk.files[index]? with
    | none => rfl
    | some old =>
      by_cases here : file = index
      · subst here
        have held : disk.content file = old.content.toBytes := by
          rw [content, held, found]
          rfl
        rw [held] at leftWithin rightWithin
        simp [SparseBytes.overwrite_comm leftWithin rightWithin away]
      · simp [here]
  · exact List.modify_modify_ne _ _ _ same

end Disk

namespace HeapFile

variable {heap other : HeapFile} {disk : Disk} {number start : Nat} {patch : Bytes}

/-- The file has all bytes of the page. -/
def Covers (heap : HeapFile) (disk : Disk) (number : Nat) : Prop :=
  (number + 1) * heap.pageSize ≤ (disk.content heap.file).length

theorem covers_of_image (whole : (heap.image disk number).length = heap.pageSize) :
    heap.Covers disk number := by
  rw [image, Bytes.slice, List.length_take, List.length_drop] at whole
  have size_pos := heap.size_pos
  rw [Covers, Nat.succ_mul]
  omega

theorem lt_extent_of_covers (covers : heap.Covers disk number) : number < heap.extent disk := by
  have size_pos := heap.size_pos
  rw [extent_eq, Nat.lt_iff_add_one_le, Nat.le_div_iff_mul_le size_pos]
  rw [Covers] at covers
  omega

/-- A page behind the last one does not overlap a page that the file has. -/
theorem covers_le_end (covers : heap.Covers disk number) :
    (number + 1) * heap.pageSize ≤ heap.extent disk * heap.pageSize :=
  Nat.mul_le_mul_right _ (lt_extent_of_covers covers)

theorem covers_overwrite (covers : heap.Covers disk number) (file : Nat) :
    heap.Covers (disk.overwrite file start patch) number :=
  Nat.le_trans covers (Disk.length_content_overwrite disk file start patch heap.file)

/-- A write elsewhere leaves the bytes of a page as they are. -/
theorem image_overwrite_elsewhere (covers : heap.Covers disk number) {file : Nat}
    (apart : file = heap.file → (number + 1) * heap.pageSize ≤ start ∨
      start + patch.length ≤ number * heap.pageSize) :
    heap.image (disk.overwrite file start patch) number = heap.image disk number := by
  rw [image, image, Disk.content_overwrite]
  split
  · next same =>
    rw [Covers, Nat.succ_mul] at covers
    obtain ⟨rfl, -⟩ := same
    have away := apart rfl
    rw [Nat.succ_mul] at away
    exact Bytes.slice_overwrite_apart covers away
  · rfl

/-- A page that is written to its place in the file is what the file holds there. -/
theorem image_overwrite_self (covers : heap.Covers disk number)
    (sized : patch.length = heap.pageSize) :
    heap.image (disk.overwrite heap.file (number * heap.pageSize) patch) number = patch := by
  rw [image, Disk.content_overwrite]
  split
  · rw [← sized]
    exact Bytes.slice_overwrite_self ..
  · next missing =>
    -- There is no such file, so the page has no bytes.
    have outside : disk.files.length ≤ heap.file := by
      apply Nat.le_of_not_lt
      intro there
      exact missing ⟨rfl, there⟩
    have size_pos := heap.size_pos
    rw [Covers, Disk.content_of_missing outside, List.length_nil, Nat.succ_mul] at covers
    omega

/-- Two pages of one file do not overlap. -/
theorem apart_of_ne {number other size : Nat} (differs : number ≠ other) :
    (number + 1) * size ≤ other * size ∨ other * size + size ≤ number * size := by
  rcases Nat.lt_or_gt_of_ne differs with before | after
  · exact Or.inl (Nat.mul_le_mul_right size before)
  · right
    rw [← Nat.succ_mul]
    exact Nat.mul_le_mul_right size after

end HeapFile

end PagedStore
