import PagedStore.Page.Geometry
import PagedStore.Row.Basic

/-!
A page in memory: a fixed number of slots, each free or holding a row, with a usage bit for each slot
and a note of the transaction that changed the page last. The bits are kept as they stand on disk, so
there may be more of them than slots. Rows enter at the first free slot and leave by the record they
are stored in. Main statements: setting a slot changes that slot alone, and the exact conditions under
which a row can be stored or deleted.
-/

namespace PagedStore

structure Page where
  id : PageId
  schema : Schema
  size : Nat
  /-- The usage bits in whole bytes, those past the last slot included. -/
  bits : List Bool
  slots : List (Option Row)
  /-- The transaction that changed the page since it was read or written, if any did. -/
  dirtiedBy : Option Transaction
deriving DecidableEq

namespace Page

def empty (id : PageId) (schema : Schema) (size : Nat) : Page :=
  let slots := Geometry.slotCount size schema.width
  { id, schema, size
    bits := List.replicate (8 * Geometry.headerWidth slots) false
    slots := List.replicate slots none
    dirtiedBy := none }

def slotCount (page : Page) : Nat := page.slots.length

def usage (page : Page) : List Bool := page.bits.take page.slotCount

def freeCount (page : Page) : Nat := page.usage.count false

def isUsed (page : Page) (slot : Nat) : Bool := page.usage[slot]?.getD false

def row? (page : Page) (slot : Nat) : Option Row := page.slots[slot]?.join

def rows (page : Page) : List Row := page.slots.filterMap fun row => row

def firstFree? (page : Page) : Option Nat := page.usage.findIdx? (· == false)

def nextRow? (page : Page) (start : Nat) : Option (Nat × Row) :=
  (page.slots.drop start).zipIdx start |>.findSome? fun (row, slot) => row.map (slot, ·)

def setSlot (page : Page) (slot : Nat) (row : Option Row) : Page :=
  { page with bits := page.bits.set slot row.isSome, slots := page.slots.set slot row }

def insert (page : Page) (row : Row) : Except Error (RecordId × Page) := do
  row.checkAgainst page.schema
  match page.firstFree? with
  | none => .error (.pageFull page.id)
  | some slot =>
      let record := RecordId.ofSlot page.id slot
      pure (record, page.setSlot slot (row.stamped record))

/-- Frees the slot of the record that the row says it is stored in. -/
def delete (page : Page) (row : Row) : Except Error Page :=
  match row.record with
  | none => .error .missingRecordId
  | some record =>
      if record.page = page.id ∧ page.isUsed record.slot.toNat then
        .ok (page.setSlot record.slot.toNat none)
      else .error (.notOnPage record)

def marked (page : Page) (transaction : Option Transaction) : Page :=
  { page with dirtiedBy := transaction }

def isDirty (page : Page) : Bool := page.dirtiedBy.isSome

theorem slotCount_setSlot (page : Page) (slot : Nat) (row : Option Row) :
    (page.setSlot slot row).slotCount = page.slotCount := by
  simp [setSlot, slotCount]

theorem row_setSlot (page : Page) {slot : Nat} (inRange : slot < page.slotCount)
    (row : Option Row) (other : Nat) :
    (page.setSlot slot row).row? other = if other = slot then row else page.row? other := by
  rw [slotCount] at inRange
  by_cases same : other = slot
  · simp [setSlot, row?, same, inRange]
  · simp [setSlot, row?, same, List.getElem?_set_ne (Ne.symm same)]

theorem usage_setSlot (page : Page) (slot : Nat) (row : Option Row) :
    (page.setSlot slot row).usage = page.usage.set slot row.isSome := by
  rw [usage, slotCount_setSlot, setSlot, List.take_set]
  rfl

theorem insert_eq_ok_iff {page result : Page} {row : Row} {record : RecordId} :
    page.insert row = .ok (record, result) ↔
      row.checkAgainst page.schema = .ok () ∧ ∃ slot, page.firstFree? = some slot ∧
        record = RecordId.ofSlot page.id slot ∧
        result = page.setSlot slot (row.stamped record) := by
  rw [insert]
  cases row.checkAgainst page.schema with
  | error cause => simp [bind, Except.bind]
  | ok _ =>
    cases page.firstFree? with
    | none => simp [bind, Except.bind]
    | some slot =>
      constructor
      · intro stored
        injection stored with pair
        injection pair with recordEq resultEq
        subst recordEq
        exact ⟨rfl, slot, rfl, rfl, resultEq.symm⟩
      · rintro ⟨_, found, isFound, rfl, rfl⟩
        injection isFound with slotEq
        subst slotEq
        rfl

theorem delete_eq_ok_iff {page result : Page} {row : Row} :
    page.delete row = .ok result ↔
      ∃ record, row.record = some record ∧ record.page = page.id ∧
        page.isUsed record.slot.toNat ∧ result = page.setSlot record.slot.toNat none := by
  rw [delete]
  cases row.record with
  | none => simp
  | some record =>
    dsimp only
    by_cases stored : record.page = page.id ∧ page.isUsed record.slot.toNat
    · rw [if_pos stored]
      constructor
      · intro freed
        injection freed with resultEq
        exact ⟨record, rfl, stored.1, stored.2, resultEq.symm⟩
      · rintro ⟨_, isRecord, _, _, rfl⟩
        injection isRecord with recordEq
        rw [recordEq]
    · simp only [if_neg stored, Option.some.injEq, exists_eq_left', false_iff, reduceCtorEq]
      exact fun ⟨onPage, used, _⟩ => stored ⟨onPage, used⟩

end Page

end PagedStore
