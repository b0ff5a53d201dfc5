import PagedStore.Proofs.Cache.Reference

/-!
The cells of a table: the slots of all its pages in one row, in the order of pages and then of slots.
A cell is free or holds the values that a page keeps of a row. A scan goes through the cells from the
left to the right, and a row that is stored goes to the first free cell.
-/

namespace PagedStore

namespace Page

theorem findSome_zipIdx_eq_some {entries : List (Option Row)} {start slot : Nat} {row : Row}
    (found : (entries.zipIdx start).findSome? (fun (row, slot) => row.map (slot, ·)) =
      some (slot, row)) :
    start ≤ slot ∧ entries[slot - start]?.join = some row ∧
      ∀ earlier, start ≤ earlier → earlier < slot → entries[earlier - start]?.join = none := by
  induction entries generalizing start with
  | nil => contradiction
  | cons entry rest ih =>
    rw [List.zipIdx_cons, List.findSome?_cons] at found
    cases entry with
    | some first =>
      obtain ⟨rfl, rfl⟩ : start = slot ∧ first = row := by simpa using found
      refine ⟨Nat.le_refl _, ?_, ?_⟩
      · rw [Nat.sub_self]
        rfl
      · intro earlier after before
        exact absurd before (Nat.not_lt.mpr after)
    | none =>
      rcases ih found with ⟨after, there, free⟩
      have shift : ∀ number, start + 1 ≤ number →
          (none :: rest)[number - start]?.join = rest[number - (start + 1)]?.join := by
        intro number past
        rw [show number - start = number - (start + 1) + 1 by omega, List.getElem?_cons_succ]
      refine ⟨by omega, (shift slot after).trans there, ?_⟩
      intro earlier atLeast before
      rcases Nat.eq_or_lt_of_le atLeast with same | past
      · rw [← same, Nat.sub_self]
        rfl
      · exact (shift earlier past).trans (free earlier past before)

theorem findSome_zipIdx_eq_none {entries : List (Option Row)} {start : Nat}
    (missing : (entries.zipIdx start).findSome? (fun (row, slot) => row.map (slot, ·)) = none) :
    ∀ index : Nat, entries[index]?.join = none := by
  induction entries generalizing start with
  | nil =>
    intro index
    rfl
  | cons entry rest ih =>
    rw [List.zipIdx_cons, List.findSome?_cons] at missing
    cases entry with
    | some first => contradiction
    | none =>
      intro index
      cases index with
      | zero => rfl
      | succ index => exact ih missing index

variable {page : Page} {start : Nat}

theorem nextRow_eq_some {slot : Nat} {row : Row} (found : page.nextRow? start = some (slot, row)) :
    start ≤ slot ∧ page.row? slot = some row ∧
      ∀ earlier, start ≤ earlier → earlier < slot → page.row? earlier = none := by
  rcases findSome_zipIdx_eq_some found with ⟨after, there, free⟩
  have shift : ∀ number, start ≤ number →
      (page.slots.drop start)[number - start]?.join = page.row? number := by
    intro number past
    rw [List.getElem?_drop, Nat.add_sub_cancel' past, row?]
  refine ⟨after, shift slot after ▸ there, ?_⟩
  intro earlier atLeast before
  exact shift earlier atLeast ▸ free earlier atLeast before

theorem nextRow_eq_none (missing : page.nextRow? start = none) {slot : Nat} (after : start ≤ slot) :
    page.row? slot = none := by
  have free := findSome_zipIdx_eq_none missing (slot - start)
  rw [List.getElem?_drop, Nat.add_sub_cancel' after] at free
  exact free

end Page

namespace HeapFile

variable {heap : HeapFile} {current : PageId → Option Contents}

def cell (heap : HeapFile) (current : PageId → Option Contents) (index : Nat) :
    Option (List Value) :=
  if index / heap.slotCount < 4294967296 then
    (current (heap.page (index / heap.slotCount))).bind fun contents =>
      contents (index % heap.slotCount)
  else none

def cellIndex (heap : HeapFile) (number slot : Nat) : Nat := number * heap.slotCount + slot

theorem div_cellIndex {number slot : Nat} (inside : slot < heap.slotCount) :
    heap.cellIndex number slot / heap.slotCount = number := by
  have pos : 0 < heap.slotCount := Nat.lt_of_le_of_lt (Nat.zero_le slot) inside
  rw [cellIndex, Nat.mul_comm, Nat.mul_add_div pos, Nat.div_eq_of_lt inside, Nat.add_zero]

theorem mod_cellIndex {number slot : Nat} (inside : slot < heap.slotCount) :
    heap.cellIndex number slot % heap.slotCount = slot := by
  rw [cellIndex, Nat.mul_comm, Nat.mul_add_mod, Nat.mod_eq_of_lt inside]

theorem cell_of_small {index : Nat} (small : index / heap.slotCount < 4294967296) :
    heap.cell current index = (current (heap.page (index / heap.slotCount))).bind fun contents =>
      contents (index % heap.slotCount) :=
  if_pos small

/-- A cell that holds a row is on a page that has a number. -/
theorem small_of_cell {index : Nat} (there : heap.cell current index ≠ none) :
    index / heap.slotCount < 4294967296 := by
  apply Decidable.of_not_not
  intro large
  exact there (if_neg large)

theorem cell_cellIndex {number slot : Nat} (small : number < 4294967296)
    (inside : slot < heap.slotCount) : heap.cell current (heap.cellIndex number slot) =
      (current (heap.page number)).bind fun contents => contents slot := by
  have page : heap.cellIndex number slot / heap.slotCount = number := div_cellIndex inside
  rw [cell_of_small (page.symm ▸ small), page, mod_cellIndex inside]

theorem cellIndex_lt {number slot count : Nat} (inside : slot < heap.slotCount)
    (before : number < count) : heap.cellIndex number slot < count * heap.slotCount := by
  have room : (number + 1) * heap.slotCount ≤ count * heap.slotCount :=
    Nat.mul_le_mul_right _ before
  rw [Nat.succ_mul] at room
  rw [cellIndex]
  omega

/-- The cells between two slots of a page. -/
theorem cell_eq_none_between {number slot beyond : Nat}
    (free : ∀ between, slot ≤ between → between < beyond →
      heap.cell current (heap.cellIndex number between) = none) {index : Nat}
    (atLeast : heap.cellIndex number slot ≤ index) (before : index < heap.cellIndex number beyond) :
    heap.cell current index = none := by
  rw [cellIndex] at atLeast before
  have named : index = heap.cellIndex number (index - number * heap.slotCount) := by
    rw [cellIndex]
    omega
  rw [named]
  exact free _ (by omega) (by omega)

theorem cellIndex_succ (heap : HeapFile) (number : Nat) :
    heap.cellIndex (number + 1) 0 = heap.cellIndex number heap.slotCount := by
  rw [cellIndex, cellIndex, Nat.succ_mul, Nat.add_zero]

theorem cellIndex_le {number slot beyond : Nat} (atMost : slot ≤ beyond) :
    heap.cellIndex number slot ≤ heap.cellIndex number beyond :=
  Nat.add_le_add_left atMost _

structure NextCell (heap : HeapFile) (current : PageId → Option Contents) (cells start index : Nat) :
    Prop where
  atLeast : start ≤ index
  inside : index < cells
  free : ∀ earlier, start ≤ earlier → earlier < index → heap.cell current earlier = none

def Bare (heap : HeapFile) (current : PageId → Option Contents) (cells start : Nat) : Prop :=
  ∀ index, start ≤ index → index < cells → heap.cell current index = none

end HeapFile

end PagedStore
