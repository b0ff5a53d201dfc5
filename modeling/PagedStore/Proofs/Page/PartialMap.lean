import Mathlib.Data.Nat.Find
import Mathlib.Order.Bounds.Basic
import PagedStore.Proofs.Cache.Reference

/-!
A page as a partial map from slots to rows. The usage bits are the domain of the map, and every row of
the map names its own place. Storing a row extends the map at its least gap, deleting a row takes one
slot out of it, and whatever fails leaves the page alone.
-/

namespace PagedStore.Page

/-- The slots hold a partial map, and whatever else the page records agrees with it. -/
structure Maps (page : Page) : Prop where
  bit_eq : ∀ slot < page.slotCount, page.bits[slot]? = some (page.row? slot).isSome
  isUsed_eq : ∀ slot, page.isUsed slot = (page.row? slot).isSome
  inside : ∀ slot row, page.row? slot = some row → slot < page.slotCount
  fits : ∀ slot row, page.row? slot = some row →
    row.schema.agrees page.schema ∧ row.checkTypes = .ok ()
  placed : ∀ slot row, page.row? slot = some row → ∃ record, row.record = some record ∧
    record.page = page.id ∧ record.slot.toNat = slot % 65536
  count_eq : page.freeCount + page.rows.length = page.slotCount

structure Replaces (before after : Page) (slot : Nat) (row : Option Row) : Prop where
  row_eq : after.row? = Function.update before.row? slot row
  bits_eq : after.bits = before.bits.set slot row.isSome
  id_eq : after.id = before.id
  schema_eq : after.schema = before.schema
  size_eq : after.size = before.size
  slotCount_eq : after.slotCount = before.slotCount
  dirtiedBy_eq : after.dirtiedBy = before.dirtiedBy

/-- The change is one that the page refuses to make. -/
def Refuses (page : Page) : Edit → Prop
  | .insert row => ∃ cause, page.insert row = .error cause
  | .delete row => ∃ cause, page.delete row = .error cause
  | .mark _ => False

variable {page : Page}

theorem freeCount_add_length_rows (formed : page.Formed) :
    page.freeCount + page.rows.length = page.slotCount := by
  have free : page.freeCount = page.slots.countP (fun row => !row.isSome) := by
    rw [freeCount, formed.usage_eq, List.count, List.countP_map]
    apply List.countP_congr
    intro row _
    cases row <;> simp
  have stored : page.rows.length = page.slots.countP Option.isSome :=
    List.length_filterMap_eq_countP
  have split := List.length_eq_countP_add_countP Option.isSome (l := page.slots)
  simp only [decide_not, Bool.decide_eq_true] at split
  rw [free, stored, slotCount, Nat.add_comm]
  exact split.symm

theorem maps_of_formed (formed : page.Formed) : page.Maps where
  bit_eq := by
    intro slot inside
    have enough : slot < page.bits.length := by
      rw [formed.length_bits, Geometry.headerWidth]
      omega
    have bit := Page.bit_eq formed inside
    rw [List.getElem?_eq_getElem enough, Option.getD_some] at bit
    rw [List.getElem?_eq_getElem enough, bit]
  isUsed_eq := Page.isUsed_eq formed
  inside := fun _ _ stored => lt_slotCount_of_row stored
  fits := by
    intro slot row stored
    have held := formed.holds slot row stored
    exact ⟨held.agrees, (Row.checkTypes_eq_ok_iff row).mpr held.typed⟩
  placed := by
    intro slot row stored
    exact ⟨_, (formed.holds slot row stored).record_eq, rfl, UInt16.toNat_ofNat'⟩
  count_eq := freeCount_add_length_rows formed

theorem replaces_setSlot {slot : Nat} (inside : slot < page.slotCount) (row : Option Row) :
    page.Replaces (page.setSlot slot row) slot row where
  row_eq := by
    funext other
    rw [row_setSlot page inside, Function.update_apply]
  bits_eq := rfl
  id_eq := rfl
  schema_eq := rfl
  size_eq := rfl
  slotCount_eq := slotCount_setSlot page slot row
  dirtiedBy_eq := rfl

theorem firstFree_eq_some_iff_isLeast (formed : page.Formed) (slot : Nat) :
    page.firstFree? = some slot ↔
      IsLeast { slot | slot < page.slotCount ∧ page.row? slot = none } slot := by
  have free : ∀ slot, page.contents slot = none ↔ page.row? slot = none := fun slot =>
    Option.map_eq_none_iff
  rw [firstFree_eq_some_iff formed]
  constructor
  · intro opens
    refine ⟨⟨opens.inside, (free slot).mp opens.free⟩, ?_⟩
    rintro other ⟨-, isFree⟩
    apply Nat.le_of_not_lt
    intro earlier
    have taken := opens.taken other earlier
    rw [(free other).mpr isFree] at taken
    contradiction
  · rintro ⟨⟨inside, isFree⟩, least⟩
    refine ⟨inside, (free slot).mpr isFree, ?_⟩
    intro earlier before
    rw [Option.isSome_iff_ne_none, Ne, free]
    intro earlierFree
    exact Nat.not_le_of_lt before (least ⟨Nat.lt_trans before inside, earlierFree⟩)

theorem exists_firstFree_iff (formed : page.Formed) :
    (∃ slot, page.firstFree? = some slot) ↔
      ∃ slot < page.slotCount, page.row? slot = none := by
  constructor
  · rintro ⟨slot, first⟩
    exact ⟨slot, ((firstFree_eq_some_iff_isLeast formed slot).mp first).1⟩
  · intro free
    refine ⟨Nat.find free, (firstFree_eq_some_iff_isLeast formed _).mpr ⟨Nat.find_spec free, ?_⟩⟩
    exact fun other isFree => Nat.find_min' free isFree

theorem insert_succeeds_iff (formed : page.Formed) (row : Row) :
    (∃ record changed, page.insert row = .ok (record, changed)) ↔
      row.schema.agrees page.schema ∧ row.checkTypes = .ok () ∧
        ∃ slot < page.slotCount, page.row? slot = none := by
  rw [← exists_firstFree_iff formed, Row.checkTypes_eq_ok_iff, ← and_assoc,
    ← Row.checkAgainst_eq_ok_iff]
  constructor
  · rintro ⟨record, changed, stored⟩
    have facts := insert_eq_ok_iff.mp stored
    exact ⟨facts.1, facts.2.imp fun _ found => found.1⟩
  · rintro ⟨fits, slot, first⟩
    exact ⟨_, _, insert_eq_ok_iff.mpr ⟨fits, slot, first, rfl, rfl⟩⟩

theorem replaces_of_insert (formed : page.Formed) {row : Row} {record : RecordId} {changed : Page}
    (stored : page.insert row = .ok (record, changed)) :
    ∃ slot, IsLeast { slot | slot < page.slotCount ∧ page.row? slot = none } slot ∧
      record = RecordId.ofSlot page.id slot ∧
      page.Replaces changed slot (some (row.stamped record)) := by
  obtain ⟨-, slot, first, recordEq, rfl⟩ := insert_eq_ok_iff.mp stored
  exact ⟨slot, (firstFree_eq_some_iff_isLeast formed slot).mp first, recordEq,
    recordEq ▸ replaces_setSlot (firstFree_lt first) _⟩

theorem delete_succeeds_iff (formed : page.Formed) (row : Row) :
    (∃ changed, page.delete row = .ok changed) ↔
      ∃ record, row.record = some record ∧ record.page = page.id ∧
        (page.row? record.slot.toNat).isSome := by
  constructor
  · rintro ⟨changed, freed⟩
    obtain ⟨record, named, onPage, used, -⟩ := delete_eq_ok_iff.mp freed
    exact ⟨record, named, onPage, (Page.isUsed_eq formed _).symm.trans used⟩
  · rintro ⟨record, named, onPage, used⟩
    exact ⟨_, delete_eq_ok_iff.mpr
      ⟨record, named, onPage, (Page.isUsed_eq formed _).trans used, rfl⟩⟩

theorem replaces_of_delete {row : Row} {changed : Page} (freed : page.delete row = .ok changed) :
    ∃ record, row.record = some record ∧ page.Replaces changed record.slot.toNat none := by
  obtain ⟨record, named, -, used, rfl⟩ := delete_eq_ok_iff.mp freed
  exact ⟨record, named, replaces_setSlot (isUsed_lt used) none⟩

theorem edited_of_refuses {edit : Edit} (refuses : page.Refuses edit) : page.edited edit = page := by
  cases edit with
  | insert row =>
    obtain ⟨cause, refused⟩ := refuses
    rw [edited, refused]
  | delete row =>
    obtain ⟨cause, refused⟩ := refuses
    rw [edited, refused]
  | mark transaction => contradiction

/-- A page is a partial map from slots to rows, whatever has been done to it since it was made empty or
read. A row is stored exactly when it fits and there is a gap, and fills the least one; a row is deleted
exactly when it names a used slot of this page, and frees that slot alone. Marking a page changes its
mark alone, and a refused change nothing. -/
theorem partial_map_of_reachable (reachable : page.Reachable) :
    page.Maps ∧
      (∀ row, ((∃ record changed, page.insert row = .ok (record, changed)) ↔
        row.schema.agrees page.schema ∧ row.checkTypes = .ok () ∧
          ∃ slot < page.slotCount, page.row? slot = none)) ∧
      (∀ row record changed, page.insert row = .ok (record, changed) →
        ∃ slot, IsLeast { slot | slot < page.slotCount ∧ page.row? slot = none } slot ∧
          record = RecordId.ofSlot page.id slot ∧
          page.Replaces changed slot (some (row.stamped record))) ∧
      (∀ row, ((∃ changed, page.delete row = .ok changed) ↔
        ∃ record, row.record = some record ∧ record.page = page.id ∧
          (page.row? record.slot.toNat).isSome)) ∧
      (∀ row changed, page.delete row = .ok changed →
        ∃ record, row.record = some record ∧ page.Replaces changed record.slot.toNat none) ∧
      (∀ transaction, page.edited (.mark transaction) = { page with dirtiedBy := transaction }) ∧
      ∀ edit, page.Refuses edit → page.edited edit = page := by
  have formed := formed_of_reachable reachable
  exact ⟨maps_of_formed formed, insert_succeeds_iff formed,
    fun _ _ _ => replaces_of_insert formed, delete_succeeds_iff formed,
    fun _ _ => replaces_of_delete, fun _ => rfl, fun _ => edited_of_refuses⟩

/-- A page of two slots whose image has a usage bit past the last of them. Once a row has gone into the
gap, the page takes no other and the row read from the image can still be deleted. -/
theorem partial_map_of_stray_bit :
    let numbers := Schema.single (.unnamed .integer)
    let row (number : Int32) (record : Option RecordId) : Row :=
      ⟨numbers, [.integer number], rfl, record⟩
    let image : Bytes := [0x82, 0, 0, 0, 0, 7, 0, 0, 0, 0, 0, 0]
    let bits := [false, true, false, false, false, false, false, true]
    let read : Page := ⟨⟨.file 0, 0⟩, numbers, 12, bits,
      [none, some (row 7 (some ⟨⟨.file 0, 0⟩, 1⟩))], none⟩
    let page := read.edited (.insert (row 5 none))
    decode ⟨.file 0, 0⟩ numbers image = .ok read ∧ page.Reachable ∧
      page.freeCount + page.rows.length = 2 ∧
      (¬ ∃ record changed, page.insert (row 6 none) = .ok (record, changed)) ∧
      ∃ changed, page.delete (row 0 (some ⟨⟨.file 0, 0⟩, 1⟩)) = .ok changed := by
  intro numbers row image bits read page
  have decoded : decode ⟨.file 0, 0⟩ numbers image = .ok read := by decide +kernel
  have reachable : page.Reachable := ⟨read, [.insert (row 5 none)], .read decoded, rfl⟩
  have full : ∀ slot < page.slotCount, page.row? slot ≠ none := by decide +kernel
  obtain ⟨maps, inserts, -, deletes, -⟩ := partial_map_of_reachable reachable
  refine ⟨decoded, reachable, maps.count_eq, ?_, ?_⟩
  · intro stored
    obtain ⟨-, -, slot, inside, free⟩ := (inserts (row 6 none)).mp stored
    exact full slot inside free
  · exact (deletes _).mpr ⟨_, rfl, rfl, by decide +kernel⟩

end PagedStore.Page
