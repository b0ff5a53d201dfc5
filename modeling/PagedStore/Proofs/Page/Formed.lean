import PagedStore.Page.Image

/-!
Well-formed pages. On a page that was made empty or read from an image, and then changed row by row,
the usage bits and the slots never drift apart, and every stored row has the types of the page's
columns and the record of its slot. The invariant is kept by each change, successful or not, and so by
every sequence of changes.
-/

namespace PagedStore.Page

structure Holds (page : Page) (slot : Nat) (row : Row) : Prop where
  agrees : row.schema.agrees page.schema
  typed : row.WellTyped
  record_eq : row.record = some (RecordId.ofSlot page.id slot)

structure Formed (page : Page) : Prop where
  slotCount_eq : page.slotCount = Geometry.slotCount page.size page.schema.width
  length_bits : page.bits.length = 8 * Geometry.headerWidth page.slotCount
  usage_eq : page.usage = page.slots.map Option.isSome
  holds : ∀ slot row, page.row? slot = some row → page.Holds slot row

/-- One change of a page in memory. -/
inductive Edit where
  | insert (row : Row)
  | delete (row : Row)
  | mark (transaction : Option Transaction)
deriving DecidableEq

/-- The page after a change; a change that fails leaves the page as it is. -/
def edited (page : Page) : Edit → Page
  | .insert row => match page.insert row with
      | .ok (_, changed) => changed
      | .error _ => page
  | .delete row => match page.delete row with
      | .ok changed => changed
      | .error _ => page
  | .mark transaction => page.marked transaction

/-- Where the life of a page in memory begins. -/
inductive Fresh : Page → Prop where
  | empty (id : PageId) (schema : Schema) (size : Nat) : Fresh (empty id schema size)
  | read {id : PageId} {schema : Schema} {image : Bytes} {page : Page}
      (decoded : decode id schema image = .ok page) : Fresh page

def Reachable (page : Page) : Prop :=
  ∃ start edits, Fresh start ∧ page = List.foldl edited start edits

theorem lt_slotCount_of_row {page : Page} {slot : Nat} {row : Row}
    (stored : page.row? slot = some row) : slot < page.slotCount := by
  apply Nat.lt_of_not_le
  intro outside
  rw [row?, List.getElem?_eq_none outside] at stored
  contradiction

theorem getElem_slots (page : Page) {slot : Nat} (inside : slot < page.slots.length) :
    page.slots[slot] = page.row? slot := by
  rw [row?, List.getElem?_eq_getElem inside]
  rfl

theorem exists_slot_of_mem {page : Page} {row : Row} (member : some row ∈ page.slots) :
    ∃ slot, page.row? slot = some row := by
  rcases List.mem_iff_getElem.mp member with ⟨slot, inside, atSlot⟩
  exact ⟨slot, (getElem_slots page inside).symm.trans atSlot⟩

theorem isUsed_eq {page : Page} (formed : page.Formed) (slot : Nat) :
    page.isUsed slot = (page.row? slot).isSome := by
  rw [isUsed, formed.usage_eq, List.getElem?_map, row?]
  cases page.slots[slot]? <;> rfl

theorem bit_eq {page : Page} (formed : page.Formed) {slot : Nat} (inside : slot < page.slotCount) :
    page.bits[slot]?.getD false = (page.row? slot).isSome := by
  rw [← isUsed_eq formed, isUsed, usage, List.getElem?_take_of_lt inside]

theorem formed_empty (id : PageId) (schema : Schema) (size : Nat) :
    (empty id schema size).Formed where
  slotCount_eq := by simp [empty, slotCount]
  length_bits := by simp [empty, slotCount]
  usage_eq := by
    have enough : Geometry.slotCount size schema.width ≤
        8 * Geometry.headerWidth (Geometry.slotCount size schema.width) := by
      rw [Geometry.headerWidth]
      omega
    simp [empty, usage, slotCount, List.take_replicate, Nat.min_eq_left enough]
  holds := by
    intro slot row stored
    have none : (empty id schema size).row? slot = none := by
      simp only [empty, row?, List.getElem?_replicate]
      split <;> rfl
    rw [none] at stored
    contradiction

theorem formed_decode {id : PageId} {schema : Schema} {image : Bytes} {page : Page}
    (decoded : decode id schema image = .ok page) : page.Formed := by
  rcases decode_eq_ok_iff.mp decoded with ⟨-, idEq, schemaEq, sizeEq, bitsEq, -⟩
  have count := slotCount_of_decode decoded
  refine ⟨?_, ?_, ?_, ?_⟩
  · rw [count, schemaEq, sizeEq]
    rfl
  · rw [count, bitsEq]
    exact length_imageBits schema image
  · have enough := imageSlots_le_length_imageBits schema image
    rw [← bitsEq, ← count] at enough
    apply List.ext_getElem
    · rw [usage, List.length_take, List.length_map]
      exact Nat.min_eq_left enough
    · intro slot inUsage inSlots
      have inside : slot < page.slotCount := by simpa [slotCount] using inSlots
      have inBits : slot < page.bits.length := Nat.lt_of_lt_of_le inside enough
      have bit : (imageBits schema image)[slot]? = some page.bits[slot] := by
        rw [← bitsEq, List.getElem?_eq_getElem]
      have read := readSlot_of_decode decoded inside
      rw [readSlot, bit, Option.getD_some] at read
      simp only [usage, List.getElem_take, List.getElem_map, getElem_slots]
      rcases decodeSlot_eq_ok_iff.mp read with ⟨unused, isNone⟩ | ⟨used, row, -, isSome⟩
      · rw [unused, isNone]
        rfl
      · rw [used, isSome]
        rfl
  · intro slot row stored
    have read := readSlot_of_decode decoded (lt_slotCount_of_row stored)
    rw [stored] at read
    rcases decodeSlot_eq_ok_iff.mp read with ⟨-, isNone⟩ | ⟨-, unstamped, rowDecoded, isSome⟩
    · contradiction
    · obtain rfl := Option.some.inj isSome
      rcases Row.decode_eq_some_iff.mp rowDecoded with ⟨values, sameSchema, -⟩
      refine ⟨?_, ?_, ?_⟩
      · have same : unstamped.schema = page.schema := by rw [sameSchema, schemaEq]
        exact same ▸ beq_self_eq_true unstamped.schema.types
      · have types := Row.types_of_decodeValues values
        rw [← sameSchema] at types
        exact types
      · rw [idEq]
        rfl

theorem formed_setSlot {page : Page} (formed : page.Formed) {slot : Nat}
    (inside : slot < page.slotCount) {row : Option Row}
    (fits : ∀ stored, row = some stored → page.Holds slot stored) :
    (page.setSlot slot row).Formed where
  slotCount_eq := by
    rw [slotCount_setSlot]
    exact formed.slotCount_eq
  length_bits := by
    rw [slotCount_setSlot, setSlot, List.length_set]
    exact formed.length_bits
  usage_eq := by
    rw [usage_setSlot, formed.usage_eq, setSlot, List.map_set]
  holds := by
    intro other stored found
    rw [row_setSlot page inside] at found
    have held : page.Holds other stored := by
      split at found
      · next same =>
        rw [same]
        exact fits stored found
      · exact formed.holds other stored found
    exact ⟨held.agrees, held.typed, held.record_eq⟩

theorem firstFree_lt {page : Page} {slot : Nat} (free : page.firstFree? = some slot) :
    slot < page.slotCount := by
  have found := (List.findIdx?_eq_some_iff_getElem.mp free).1
  rw [usage, List.length_take] at found
  omega

theorem formed_insert {page changed : Page} (formed : page.Formed) {row : Row} {record : RecordId}
    (inserted : page.insert row = .ok (record, changed)) : changed.Formed := by
  rcases insert_eq_ok_iff.mp inserted with ⟨checked, slot, free, recordEq, rfl⟩
  rcases (Row.checkAgainst_eq_ok_iff row page.schema).mp checked with ⟨agrees, typed⟩
  apply formed_setSlot formed (firstFree_lt free)
  intro stored same
  obtain rfl := Option.some.inj same
  exact ⟨agrees, typed, congrArg some recordEq⟩

theorem isUsed_lt {page : Page} {slot : Nat} (used : page.isUsed slot) : slot < page.slotCount := by
  apply Nat.lt_of_not_le
  intro outside
  have missing : page.usage[slot]? = none := by
    apply List.getElem?_eq_none
    rw [usage, List.length_take]
    omega
  simp [isUsed, missing] at used

theorem formed_delete {page changed : Page} (formed : page.Formed) {row : Row}
    (deleted : page.delete row = .ok changed) : changed.Formed := by
  rcases delete_eq_ok_iff.mp deleted with ⟨record, -, -, used, rfl⟩
  apply formed_setSlot formed (isUsed_lt used)
  intro stored absent
  contradiction

theorem formed_marked {page : Page} (formed : page.Formed) (transaction : Option Transaction) :
    (page.marked transaction).Formed :=
  ⟨formed.slotCount_eq, formed.length_bits, formed.usage_eq, fun slot row stored =>
    let held := formed.holds slot row stored
    ⟨held.agrees, held.typed, held.record_eq⟩⟩

theorem formed_edited {page : Page} (formed : page.Formed) (edit : Edit) :
    (page.edited edit).Formed := by
  cases edit with
  | insert row =>
    rw [edited]
    split
    · next inserted => exact formed_insert formed inserted
    · exact formed
  | delete row =>
    rw [edited]
    split
    · next deleted => exact formed_delete formed deleted
    · exact formed
  | mark transaction => exact formed_marked formed transaction

theorem formed_of_fresh {page : Page} (fresh : Fresh page) : page.Formed := by
  cases fresh with
  | empty id schema size => exact formed_empty id schema size
  | read decoded => exact formed_decode decoded

theorem formed_of_reachable {page : Page} (reachable : page.Reachable) : page.Formed := by
  rcases reachable with ⟨start, edits, fresh, rfl⟩
  have startFormed := formed_of_fresh fresh
  clear fresh
  induction edits generalizing start with
  | nil => exact startFormed
  | cons edit edits ih => exact ih (start.edited edit) (formed_edited startFormed edit)

end PagedStore.Page
